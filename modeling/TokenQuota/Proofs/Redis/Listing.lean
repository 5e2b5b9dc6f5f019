import TokenQuota.Proofs.Text.Bytes
import TokenQuota.Proofs.TokenBucket.StaleKeys
import TokenQuota.Redis.Session

/-!
Listing the keys of the cells in a Redis store. The keys come on pages, each with the cursor of the
next one, and the keys of cells are found on whatever pages they come.
-/

namespace TokenQuota

namespace Digits

theorem utf8EncodeChar_ofNat_of_isDigit {b : UInt8} (h : isDigit b = true) :
    String.utf8EncodeChar (Char.ofNat b.toNat) = [b] := by
  have hb : b.toNat ≤ 57 := by
    simp only [isDigit, Bool.and_eq_true, decide_eq_true_eq] at h
    exact h.2
  have hchar : (Char.ofNat b.toNat).toNat = b.toNat := by
    rw [Char.ofNat, dif_pos (by left; omega)]
    rfl
  rw [Bytes.utf8EncodeChar_of_ascii (by omega), hchar, UInt8.ofNat_toNat]

theorem ofString_text (n : Nat) : Bytes.ofString (text n) = ofNat n := by
  have hflat : ∀ l : Bytes, (∀ b ∈ l, isDigit b = true) →
      (l.map fun b => Char.ofNat b.toNat).flatMap String.utf8EncodeChar = l := by
    intro l hl
    induction l with
    | nil => rfl
    | cons b rest ih =>
        obtain ⟨hb, hrest⟩ := List.forall_mem_cons.mp hl
        rw [List.map_cons, List.flatMap_cons, utf8EncodeChar_ofNat_of_isDigit hb, ih hrest]
        rfl
  rw [text, Bytes.ofString_ofList]
  exact hflat _ fun b hb => isDigit_of_mem_ofNat hb

theorem isEmpty_ofNat (n : Nat) : (ofNat n).isEmpty = false := by
  rw [ofNat]
  split
  · rfl
  · simp

end Digits

theorem Decimal.unsigned?_ofNat {n : Nat} (h : n ≤ maxUnsigned) :
    unsigned? (Digits.ofNat n) = some n := by
  have hall : (Digits.ofNat n).all Digits.isDigit = true :=
    List.all_eq_true.mpr fun b hb => Digits.isDigit_of_mem_ofNat hb
  have hplus : (Digits.ofNat n).head? ≠ some 0x2B := by
    intro hhead
    have hdigit := Digits.isDigit_of_mem_ofNat (List.mem_of_head? hhead)
    exact absurd hdigit (by decide)
  rw [unsigned?, if_neg hplus, digits?, Digits.isEmpty_ofNat, hall, Digits.toNat_ofNat]
  exact Option.filter_eq_some_iff.mpr ⟨rfl, decide_eq_true h⟩

namespace Redis

/-- A text matches a pattern in which a star stands for any characters, and every other character
for itself. -/
inductive Matches : List Char → List Char → Prop
  | nil : Matches [] []
  | star {pattern text : List Char} (skipped : List Char) (h : Matches pattern text) :
      Matches ('*' :: pattern) (skipped ++ text)
  | literal {pattern text : List Char} {c : Char} (hc : c ≠ '*') (h : Matches pattern text) :
      Matches (c :: pattern) (c :: text)

theorem matches_pattern_of_isStateKey {key : String} (h : StateKey.isStateKey key = true) :
    Matches Exchange.pattern.toList key.toList := by
  unfold StateKey.isStateKey at h
  split at h
  · rename_i before mark hlast
    obtain ⟨hkey, -⟩ := StateKey.splitLast?_eq_some_iff.mp hlast
    rw [Bool.and_eq_true, List.contains_iff_mem] at h
    obtain ⟨ns, bucket, hbefore⟩ := List.append_of_mem h.1
    have hmark : Matches ['*'] mark := by
      rw [← List.append_nil mark]
      exact .star mark .nil
    rw [hkey, hbefore, List.append_assoc]
    exact .star ns (.literal (by decide) (.star bucket (.literal (by decide) hmark)))
  · cases h

/-- A page of keys. -/
def pageReply (next : Nat) (keys : List String) : Reply :=
  .list [.octets (Bytes.ofString (Digits.text next)),
    .list (keys.map fun key => .octets (Bytes.ofString key))]

/-- A page of keys that is not the last one. -/
structure Page where
  /-- The cursor of the page after it. -/
  next : Nat
  keys : List String
  more : 0 < next
  bounded : next ≤ maxUnsigned

def Page.reply (p : Page) : Reply := pageReply p.next p.keys

/-- A store hands out its keys in pages, of any size and under any cursors. -/
structure Listing where
  pages : List Page
  last : List String

namespace Listing

def replies (l : Listing) : List Reply :=
  l.pages.map Page.reply ++ [pageReply 0 l.last]

def keys (l : Listing) : List String :=
  l.pages.flatMap Page.keys ++ l.last

/-- Every key that matches the pattern is on some page, or on several. -/
def Shows (l : Listing) (keys : List String) : Prop :=
  ∀ key ∈ keys, Matches Exchange.pattern.toList key.toList → key ∈ l.keys

end Listing

/-- The commands that ask for pages: for the one at a cursor, and for each one after it. -/
def scanCommands (cursor : Nat) (pages : List Page) : List Command :=
  (cursor :: pages.map Page.next).map Exchange.scanCommand

def asPage : Reply → Reply.Expected (Nat × List String) :=
  Reply.both Reply.unsigned Reply.texts

/-- No page is heard: there is no reply, an error is signalled, or the reply is something else. -/
def NoPage (replies : List Reply) : Prop :=
  ∀ r, replies.head? = some r → ∀ p, asPage r ≠ .ok p

theorem unsigned_digits {n : Nat} (h : n ≤ maxUnsigned) :
    Reply.unsigned (.octets (Bytes.ofString (Digits.text n))) = .ok n := by
  rw [Reply.unsigned, Reply.number, Bytes.text?_ofString, Digits.ofString_text]
  simp [Reply.number.parsed, Decimal.unsigned?_ofNat h]
  rfl

theorem texts_keys (keys : List String) :
    Reply.texts (.list (keys.map fun key => .octets (Bytes.ofString key))) = .ok keys := by
  rw [Reply.texts]
  induction keys with
  | nil => rfl
  | cons key rest ih =>
      rw [List.map_cons, List.mapM_cons, ih, Reply.text, Bytes.text?_ofString]
      rfl

theorem asPage_pageReply {next : Nat} (h : next ≤ maxUnsigned) (keys : List String) :
    asPage (pageReply next keys) = .ok (next, keys) := by
  rw [asPage, pageReply, Reply.both, unsigned_digits h, texts_keys]
  rfl

namespace Exchange

variable {α β : Type}

theorem run_bind_of_ok {x : Exchange α} {f : α → Exchange β} {a : α} {s s' : Session}
    (h : x.run s = (.ok a, s')) : (x >>= f).run s = (f a).run s' := by
  change (ExceptT.bindCont f (x.run s).1) (x.run s).2 = _
  rw [h]
  rfl

theorem run_bind_of_error {x : Exchange α} {f : α → Exchange β} {e : QuotaError} {s s' : Session}
    (h : x.run s = (.error e, s')) : (x >>= f).run s = (.error e, s') := by
  change (ExceptT.bindCont f (x.run s).1) (x.run s).2 = _
  rw [h]
  rfl

/-- A reply that signals no error says what is expected of it, or it is an error itself. -/
theorem run_say {failure : String} {c : Command} {expect : Reply → Reply.Expected α}
    {reply : Reply} (hreply : ∀ signalled, reply ≠ .error signalled) (rest : List Reply)
    (sent : List Command) :
    (say failure c expect).run ⟨reply :: rest, sent⟩ =
      ((expect reply).mapError fun detail => .connection s!"{failure}: {detail}",
        ⟨rest, sent ++ [c]⟩) := by
  cases reply with
  | error signalled => exact absurd rfl (hreply signalled)
  | _ =>
      unfold say
      dsimp [ExceptT.run, ExceptT.mk, hear, bind, StateT.bind]
      generalize expect _ = heard
      cases heard with
      | ok a => rfl
      | error detail => rfl

theorem run_say_of_not_ok {failure : String} {c : Command} {expect : Reply → Reply.Expected α}
    {replies : List Reply} (h : ∀ r, replies.head? = some r → ∀ a, expect r ≠ .ok a)
    (sent : List Command) :
    ∃ message, (say failure c expect).run ⟨replies, sent⟩ =
      (.error (.connection message), ⟨replies.drop 1, sent ++ [c]⟩) := by
  cases replies with
  | nil => exact ⟨_, rfl⟩
  | cons reply rest =>
      cases hreply : expect reply with
      | ok a => exact absurd hreply (h reply rfl a)
      | error detail =>
          by_cases hsignals : ∃ signalled, reply = .error signalled
          · obtain ⟨signalled, rfl⟩ := hsignals
            exact ⟨_, rfl⟩
          · rw [run_say (not_exists.mp hsignals), hreply]
            exact ⟨_, rfl⟩

/-- A command is sent whatever comes back. -/
theorem sent_say (failure : String) (c : Command) (expect : Reply → Reply.Expected α)
    (s : Session) : ((say failure c expect).run s).2.sent = s.sent ++ [c] := by
  obtain ⟨replies, sent⟩ := s
  cases replies with
  | nil => rfl
  | cons reply rest =>
      by_cases hsignals : ∃ signalled, reply = .error signalled
      · obtain ⟨signalled, rfl⟩ := hsignals
        rfl
      · rw [run_say (not_exists.mp hsignals)]

theorem run_page {next : Nat} (h : next ≤ maxUnsigned) (keys : List String) (cursor : Nat)
    (rest : List Reply) (sent : List Command) :
    (page cursor).run ⟨pageReply next keys :: rest, sent⟩ =
      (.ok (next, keys), ⟨rest, sent ++ [scanCommand cursor]⟩) := by
  have hpage : Reply.both Reply.unsigned Reply.texts (pageReply next keys) = .ok (next, keys) :=
    asPage_pageReply h keys
  rw [page, run_say (fun _ heq => Reply.noConfusion heq), hpage]
  rfl

theorem run_page_of_noPage {replies : List Reply} (h : NoPage replies) (cursor : Nat)
    (sent : List Command) :
    ∃ message, (page cursor).run ⟨replies, sent⟩ =
      (.error (.connection message), ⟨replies.drop 1, sent ++ [scanCommand cursor]⟩) :=
  run_say_of_not_ok h sent

theorem run_scanFrom_page (p : Page) (limit cursor : Nat) (rest : List Reply)
    (sent : List Command) :
    (scanFrom (limit + 1) cursor).run ⟨p.reply :: rest, sent⟩ =
      (do return p.keys.filter StateKey.isStateKey ++ (← scanFrom limit p.next) :
        Exchange (List String)).run ⟨rest, sent ++ [scanCommand cursor]⟩ := by
  have hpage : (page cursor).run ⟨p.reply :: rest, sent⟩ =
      (.ok (p.next, p.keys), ⟨rest, sent ++ [scanCommand cursor]⟩) :=
    run_page p.bounded p.keys cursor rest sent
  rw [scanFrom, run_bind_of_ok hpage]
  dsimp only
  rw [if_neg (Nat.ne_of_gt p.more)]

theorem run_scanFrom (pages : List Page) (last : List String) {limit : Nat}
    (hlimit : pages.length < limit) (cursor : Nat) (rest : List Reply) (sent : List Command) :
    (scanFrom limit cursor).run ⟨pages.map Page.reply ++ pageReply 0 last :: rest, sent⟩ =
      (.ok ((pages.flatMap Page.keys ++ last).filter StateKey.isStateKey),
        ⟨rest, sent ++ scanCommands cursor pages⟩) := by
  induction pages generalizing limit cursor sent with
  | nil =>
      cases limit with
      | zero => cases hlimit
      | succ limit =>
          change (scanFrom (limit + 1) cursor).run ⟨pageReply 0 last :: rest, sent⟩ = _
          rw [scanFrom, run_bind_of_ok (run_page (Nat.zero_le _) last cursor rest sent)]
          rfl
  | cons p pages ih =>
      cases limit with
      | zero => cases hlimit
      | succ limit =>
          have hrest := ih (Nat.lt_of_succ_lt_succ hlimit) p.next (sent ++ [scanCommand cursor])
          rw [List.map_cons, List.cons_append, run_scanFrom_page, run_bind_of_ok hrest,
            List.append_assoc, List.flatMap_cons, List.append_assoc, List.filter_append p.keys]
          rfl

theorem run_scanFrom_of_noPage (pages : List Page) {replies : List Reply} (h : NoPage replies)
    {limit : Nat} (hlimit : pages.length < limit) (cursor : Nat) (sent : List Command) :
    ∃ message, (scanFrom limit cursor).run ⟨pages.map Page.reply ++ replies, sent⟩ =
      (.error (.connection message), ⟨replies.drop 1, sent ++ scanCommands cursor pages⟩) := by
  induction pages generalizing limit cursor sent with
  | nil =>
      cases limit with
      | zero => cases hlimit
      | succ limit =>
          obtain ⟨message, hpage⟩ := run_page_of_noPage h cursor sent
          exact ⟨message, run_bind_of_error hpage⟩
  | cons p pages ih =>
      cases limit with
      | zero => cases hlimit
      | succ limit =>
          obtain ⟨message, hrest⟩ :=
            ih (Nat.lt_of_succ_lt_succ hlimit) p.next (sent ++ [scanCommand cursor])
          refine ⟨message, ?_⟩
          rw [List.map_cons, List.cons_append, run_scanFrom_page, run_bind_of_error hrest,
            List.append_assoc]
          rfl

theorem run_scan (l : Listing) (rest : List Reply) :
    scan.run ⟨l.replies ++ rest, []⟩ =
      (.ok (l.keys.filter StateKey.isStateKey), ⟨rest, scanCommands 0 l.pages⟩) := by
  have hlimit : l.pages.length < (l.replies ++ rest).length + 1 := by
    simp only [Listing.replies, List.length_append, List.length_map, List.length_singleton]
    omega
  change (scanFrom ((l.replies ++ rest).length + 1) 0).run ⟨l.replies ++ rest, []⟩ = _
  have hscan := run_scanFrom l.pages l.last hlimit 0 rest []
  rwa [List.append_cons] at hscan

theorem run_scan_of_noPage (pages : List Page) {replies : List Reply} (h : NoPage replies) :
    ∃ message, scan.run ⟨pages.map Page.reply ++ replies, []⟩ =
      (.error (.connection message), ⟨replies.drop 1, scanCommands 0 pages⟩) := by
  have hlimit : pages.length < (pages.map Page.reply ++ replies).length + 1 := by
    simp only [List.length_append, List.length_map]
    omega
  exact run_scanFrom_of_noPage pages h hlimit 0 []

end Exchange

end Redis

end TokenQuota
