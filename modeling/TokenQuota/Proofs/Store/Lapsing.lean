import TokenQuota.Proofs.Store.Cells
import TokenQuota.Store.Backend

/-!
What clients see of the cells that have expired but are still there. While the clock never goes
back, every answer is that of a store that removes its cells the moment they expire. Only a deletion
is told apart: it counts the expired cells, too, that it finds.
-/

namespace TokenQuota

/-- What a client asks of a store. -/
inductive Question
  | get (key : String)
  | set (key : String) (value : Int)
  | list
  | take (script : String) (keys : CellKeys) (t : Take)
  | scan
  | delete (keys : List String)

inductive Answer
  | value (value : Option Int)
  | stored
  | listed (keys : List String)
  | result (result : Except QuotaError Int)
  | found (keys : Except QuotaError (List String))
  | deleted (count : Except QuotaError Nat)
deriving DecidableEq

/-- The answer with a greater number of deleted keys, if it tells a number of deleted keys. -/
def Answer.plus : Answer → Nat → Answer
  | .deleted (.ok count), n => .deleted (.ok (count + n))
  | a, _ => a

/-- Decides a request on the cells that are there, and writes both if it is admitted. -/
def Store.takeOfPresent (s : Store) (now : Int) (keys : CellKeys) (t : Take) : Decision × Store :=
  let value (key : String) := (s.cells.get? key).map Cell.value
  match t.evaluate (value keys.nextAvailable) (value keys.accumulated) with
  | .rejected => (.rejected, s)
  | .admitted wait cells => (.admitted wait cells, s.write keys cells (Store.expiryAt now t))

namespace Question

/-- The answer of a store that keeps its expired cells. -/
def ask : Question → Backend → Answer × Backend
  | .get key, b => (.value (b.store.get? b.now key), b)
  | .set key value, b => (.stored, { b with store := b.store.set key value })
  | .list, b => (.listed (b.store.keys b.now), b)
  | .take script keys t, b => (Backend.take script keys t b).map .result id
  | .scan, b => (Backend.scan b).map .found id
  | .delete keys, b => (Backend.delete keys b).map .deleted id

def takeOfPresent (script : String) (keys : CellKeys) (t : Take) : Call Int :=
  Backend.guarded ⟨Outages.takes, fun o s => { s with takes := o }⟩
    (.connection "Connection reset by peer") fun b =>
      if b.store.scripts.contains script then
        let (decision, store) := b.store.takeOfPresent b.now keys t
        (.ok decision.result, { b with store })
      else (.error (.connection "NOSCRIPT No matching script"), b)

def scanOfPresent : Call (List String) :=
  Backend.guarded ⟨Outages.scans, fun o s => { s with scans := o }⟩ (Backend.injected "scan")
    fun b => (.ok (b.store.cells.names.filter StateKey.isStateKey), b)

/-- The answer of a store that takes every cell for live that is there. -/
def askOfPresent : Question → Backend → Answer × Backend
  | .get key, b => (.value ((b.store.cells.get? key).map Cell.value), b)
  | .set key value, b => (.stored, { b with store := b.store.set key value })
  | .list, b => (.listed b.store.cells.names, b)
  | .take script keys t, b => (takeOfPresent script keys t b).map .result id
  | .scan, b => (scanOfPresent b).map .found id
  | .delete keys, b => (Backend.delete keys b).map .deleted id

/-- The number of expired cells that a deletion finds. -/
def lapsed : Question → Backend → Nat
  | .delete keys, b => (keys.toFinset.filter fun key =>
      (b.store.cells.get? key).any fun cell => !cell.isLive b.now).card
  | _, _ => 0

end Question

/-- Removes the cells that have expired. -/
def Backend.purge (b : Backend) : Backend :=
  { b with store.cells := b.store.live b.now }

/-- A question, and the reading of the clock when it is asked. -/
structure Inquiry where
  now : Int
  question : Question

namespace Inquiry

def enter (i : Inquiry) (b : Backend) : Backend :=
  { b with now := i.now }

def lazily (i : Inquiry) (b : Backend) : Answer × Backend :=
  i.question.ask (i.enter b)

/-- A store that removes its cells the moment they expire: when the clock goes on, and when a
cell is written that has expired already. -/
def eagerly (i : Inquiry) (b : Backend) : Answer × Backend :=
  (i.question.askOfPresent (i.enter b).purge).map id Backend.purge

def answers (inquire : Inquiry → Backend → Answer × Backend) : List Inquiry → Backend → List Answer
  | [], _ => []
  | i :: rest, b => (inquire i b).1 :: answers inquire rest (inquire i b).2

/-- The numbers of expired cells that deletions find in a store that keeps them. -/
def lapses : List Inquiry → Backend → List Nat
  | [], _ => []
  | i :: rest, b => i.question.lapsed (i.enter b) :: lapses rest (i.lazily b).2

end Inquiry

namespace Store

theorem live_live {t t' : Int} (h : t ≤ t') (s : Store) :
    { s with cells := s.live t }.live t' = s.live t' := by
  refine NameMap.ext_get? fun key cell => ?_
  rw [get?_live, get?_live, get?_live]
  constructor
  · rintro ⟨⟨hcell, -⟩, hlive⟩
    exact ⟨hcell, hlive⟩
  · rintro ⟨hcell, hlive⟩
    refine ⟨⟨hcell, ?_⟩, hlive⟩
    cases hexpiry : cell.expiry with
    | none => simp [Cell.isLive, hexpiry]
    | some at_ =>
        simp only [Cell.isLive, hexpiry, decide_eq_true_eq] at hlive ⊢
        omega

theorem get?_purged (s : Store) (now : Int) (key : String) :
    ((s.live now).get? key).map Cell.value = s.get? now key := by
  rw [get?_live_eq_filter, get?]
  cases s.cells.get? key with
  | none => rfl
  | some cell => cases hlive : cell.isLive now <;> simp [Option.filter, hlive]

/-- The same but for the cells that have expired. -/
structure Alike (now : Int) (s s' : Store) : Prop where
  live : s.live now = s'.live now
  scripts : s.scripts = s'.scripts
  connects : s.connects = s'.connects

variable {s s' : Store} {now : Int}

theorem alike_live (s : Store) (now : Int) : Alike now s { s with cells := s.live now } :=
  ⟨(live_live (Int.le_refl now) s).symm, rfl, rfl⟩

theorem Alike.insert (h : Alike now s s') (key : String) (cell : Cell) :
    Alike now { s with cells := s.cells.insert key cell }
      { s' with cells := s'.cells.insert key cell } := by
  refine ⟨NameMap.ext_get? fun name found => ?_, h.scripts, h.connects⟩
  rw [get?_live_eq_filter, get?_live_eq_filter, NameMap.get?_insert, NameMap.get?_insert]
  split
  · rfl
  · rw [← get?_live_eq_filter, ← get?_live_eq_filter, h.live]

theorem Alike.write (h : Alike now s s') (keys : CellKeys) (cells : Cells) (expiry : Option Int) :
    Alike now (s.write keys cells expiry) (s'.write keys cells expiry) :=
  (h.insert keys.nextAvailable _).insert keys.accumulated _

theorem Alike.delete (h : Alike now s s') (keys : List String) :
    Alike now (delete keys s).2 (delete keys s').2 := by
  refine ⟨NameMap.ext_get? fun name found => ?_, ?_, ?_⟩
  · rw [get?_live_eq_filter, get?_live_eq_filter, get?_delete, get?_delete]
    split
    · rfl
    · rw [← get?_live_eq_filter, ← get?_live_eq_filter, h.live]
  · rw [scripts_delete, scripts_delete, h.scripts]
  · rw [connects_delete, connects_delete, h.connects]

/-- A request is decided alike, and leaves the stores alike. -/
theorem take_spec (s : Store) (now : Int) (keys : CellKeys) (t : Take) :
    (s.take now keys t).1 = ({ s with cells := s.live now }.takeOfPresent now keys t).1 ∧
      Alike now (s.take now keys t).2
        ({ s with cells := s.live now }.takeOfPresent now keys t).2 := by
  have hdecision : t.evaluate (((s.live now).get? keys.nextAvailable).map Cell.value)
      (((s.live now).get? keys.accumulated).map Cell.value) = s.decision now keys t := by
    rw [get?_purged, get?_purged, decision]
  unfold take takeOfPresent
  dsimp only
  rw [hdecision]
  cases s.decision now keys t with
  | rejected => exact ⟨rfl, alike_live s now⟩
  | admitted wait cells => exact ⟨rfl, (alike_live s now).write keys cells _⟩

/-- A deletion finds the live cells that it names, and the expired ones. -/
theorem delete_fst_eq_add (keys : List String) (s : Store) (now : Int) :
    (delete keys s).1 = (delete keys { s with cells := s.live now }).1 +
      (keys.toFinset.filter fun key =>
        (s.cells.get? key).any fun cell => !cell.isLive now).card := by
  have hsplit : (keys.toFinset.filter fun key => s.cells.contains key) =
      (keys.toFinset.filter fun key => (s.live now).contains key) ∪
        keys.toFinset.filter fun key => (s.cells.get? key).any fun cell => !cell.isLive now := by
    rw [← Finset.filter_or]
    refine Finset.filter_congr fun key _ => ?_
    rw [NameMap.contains, NameMap.contains, get?_live_eq_filter]
    cases s.cells.get? key with
    | none => simp
    | some cell => cases hlive : cell.isLive now <;> simp [Option.filter, hlive]
  have hdisjoint : Disjoint (keys.toFinset.filter fun key => (s.live now).contains key)
      (keys.toFinset.filter fun key => (s.cells.get? key).any fun cell => !cell.isLive now) := by
    refine Finset.disjoint_filter.mpr fun key _ => ?_
    rw [NameMap.contains, get?_live_eq_filter]
    cases s.cells.get? key with
    | none => simp
    | some cell => cases hlive : cell.isLive now <;> simp [Option.filter, hlive]
  rw [delete_fst, delete_fst, hsplit, Finset.card_union_of_disjoint hdisjoint]

end Store

namespace Backend

theorem purge_enter {b : Backend} {i : Inquiry} (h : b.now ≤ i.now) :
    (i.enter b.purge).purge = (i.enter b).purge := by
  simp only [purge, Inquiry.enter, Store.live_live h]

/-- What two clients leave behind is the same, but for the cells that have expired. -/
def Matches (b x y : Backend) : Prop := x.purge = y.purge ∧ x.now = b.now

theorem matches_of_alike {b : Backend} {s s' : Store} (h : Store.Alike b.now s s') (o : Outages) :
    b.Matches { b with outages := o, store := s } { b.purge with outages := o, store := s' } := by
  have hs : { s with cells := s.live b.now } = { s' with cells := s'.live b.now } := by
    rw [Store.mk.injEq]
    exact ⟨h.live, h.scripts, h.connects⟩
  exact ⟨congrArg (fun s => Backend.mk b.now s o b.handles) hs, rfl⟩

theorem matches_purge (b : Backend) (o : Outages) :
    b.Matches { b with outages := o } { b.purge with outages := o } :=
  matches_of_alike (Store.alike_live b.store b.now) o

theorem matches_guarded {α : Type} {P : Except QuotaError α → Except QuotaError α → Prop}
    {outage : Part Outages Outage} {error : QuotaError} {f g : Call α} {b : Backend}
    (herror : P (.error error) (.error error))
    (h : ∀ o, P (f { b with outages := o }).1 (g { b.purge with outages := o }).1 ∧
      b.Matches (f { b with outages := o }).2 (g { b.purge with outages := o }).2) :
    P (guarded outage error f b).1 (guarded outage error g b.purge).1 ∧
      b.Matches (guarded outage error f b).2 (guarded outage error g b.purge).2 := by
  unfold guarded
  dsimp only
  by_cases hhit : (outage.get b.outages).isHit
  · have hhit' : (outage.get b.purge.outages).isHit := hhit
    rw [if_pos hhit, if_pos hhit']
    exact ⟨herror, b.matches_purge _⟩
  · have hhit' : ¬(outage.get b.purge.outages).isHit := hhit
    rw [if_neg hhit, if_neg hhit']
    exact h _

end Backend

namespace Question

theorem take_spec (script : String) (keys : CellKeys) (t : Take) (b : Backend) :
    (Backend.take script keys t b).1 = (takeOfPresent script keys t b.purge).1 ∧
      b.Matches (Backend.take script keys t b).2 (takeOfPresent script keys t b.purge).2 := by
  refine Backend.matches_guarded rfl fun o => ?_
  by_cases hscript : b.store.scripts.contains script
  · have hscript' : b.purge.store.scripts.contains script := hscript
    obtain ⟨hdecision, halike⟩ := Store.take_spec b.store b.now keys t
    dsimp only
    rw [if_pos hscript, if_pos hscript']
    exact ⟨congrArg (fun d => Except.ok d.result) hdecision, Backend.matches_of_alike halike o⟩
  · have hscript' : ¬b.purge.store.scripts.contains script := hscript
    dsimp only
    rw [if_neg hscript, if_neg hscript']
    exact ⟨rfl, b.matches_purge o⟩

theorem scan_spec (b : Backend) : (Backend.scan b).1 = (scanOfPresent b.purge).1 ∧
    b.Matches (Backend.scan b).2 (scanOfPresent b.purge).2 :=
  Backend.matches_guarded rfl fun o => ⟨rfl, b.matches_purge o⟩

theorem delete_spec (keys : List String) (b : Backend) :
    Answer.deleted (Backend.delete keys b).1 =
        (Answer.deleted (Backend.delete keys b.purge).1).plus (lapsed (.delete keys) b) ∧
      b.Matches (Backend.delete keys b).2 (Backend.delete keys b.purge).2 := by
  let Counts (r r' : Except QuotaError Nat) : Prop :=
    Answer.deleted r = (Answer.deleted r').plus (lapsed (.delete keys) b)
  refine Backend.matches_guarded (P := Counts) rfl fun o => ⟨?_, ?_⟩
  · exact congrArg (fun n => Answer.deleted (.ok n)) (Store.delete_fst_eq_add keys b.store b.now)
  · exact Backend.matches_of_alike ((Store.alike_live b.store b.now).delete keys) o

/-- Both stores make the same answer, but for the expired cells that a deletion finds, and are
left with the same live cells. -/
theorem ask_spec (q : Question) (b : Backend) :
    (q.ask b).1 = (q.askOfPresent b.purge).1.plus (q.lapsed b) ∧
      b.Matches (q.ask b).2 (q.askOfPresent b.purge).2 := by
  have halike := Store.alike_live b.store b.now
  cases q with
  | get key =>
      exact ⟨congrArg Answer.value (Store.get?_purged _ _ _).symm, b.matches_purge b.outages⟩
  | set key value =>
      exact ⟨rfl, Backend.matches_of_alike (halike.insert key ⟨value, none⟩) b.outages⟩
  | list => exact ⟨rfl, b.matches_purge b.outages⟩
  | take script keys t =>
      obtain ⟨hresult, hmatches⟩ := take_spec script keys t b
      exact ⟨congrArg Answer.result hresult, hmatches⟩
  | scan =>
      obtain ⟨hfound, hmatches⟩ := scan_spec b
      exact ⟨congrArg Answer.found hfound, hmatches⟩
  | delete keys => exact delete_spec keys b

end Question

namespace Inquiry

/-- While the clock never goes back, a store that keeps its expired cells answers as one that
removes them the moment they expire. Only a deletion counts the expired cells, too, that it
finds. -/
theorem answers_lazily {b : Backend} {inquiries : List Inquiry}
    (hclock : (b.now :: inquiries.map Inquiry.now).Pairwise (· ≤ ·)) :
    answers lazily inquiries b =
      List.zipWith Answer.plus (answers eagerly inquiries b.purge) (lapses inquiries b) := by
  induction inquiries generalizing b with
  | nil => rfl
  | cons i rest ih =>
      obtain ⟨hlater, hrest⟩ := List.pairwise_cons.mp hclock
      obtain ⟨hanswer, hpurged, hnow⟩ := i.question.ask_spec (i.enter b)
      have henter : (i.enter b.purge).purge = (i.enter b).purge :=
        Backend.purge_enter (hlater i.now List.mem_cons_self)
      have hfirst : (i.lazily b).1 =
          (i.eagerly b.purge).1.plus (i.question.lapsed (i.enter b)) := by
        rw [eagerly, henter]
        exact hanswer
      have hleft : (i.eagerly b.purge).2 = (i.lazily b).2.purge := by
        rw [eagerly, henter]
        exact hpurged.symm
      have hnext : ((i.lazily b).2.now :: rest.map Inquiry.now).Pairwise (· ≤ ·) := by
        rw [show (i.lazily b).2.now = i.now from hnow]
        exact hrest
      rw [answers, answers, lapses, List.zipWith_cons_cons, hfirst, hleft, ih hnext]

/-- The cells of a bucket expire, are written anew, expire once more, and are deleted twice. -/
theorem answers_lazily_rewritten :
    let b := { Backend.atTime 1000 with store := Store.empty.load "script" }
    let cells : CellKeys := ⟨"api:search:TNA", "api:search:AT"⟩
    let take (now : Int) := Question.take "script" cells ⟨now, 1000000000, 3, 2, 0, 10, 0⟩
    let inquiries : List Inquiry :=
      [⟨1000, take 1000⟩, ⟨1000, .set "api:search:max" 7⟩, ⟨10001000, .get "api:search:TNA"⟩,
        ⟨10001000, .list⟩, ⟨10001000, .delete ["api:search:AT"]⟩, ⟨10002000, take 10002000⟩,
        ⟨20001999, .scan⟩, ⟨20002000, .scan⟩,
        ⟨20002000, .delete ["api:search:AT", "api:search:max", "api:search:AT"]⟩,
        ⟨20002000, .delete ["api:search:AT"]⟩]
    (b.now :: inquiries.map Inquiry.now).Pairwise (· ≤ ·) ∧
      lapses inquiries b = [0, 0, 0, 0, 1, 0, 0, 0, 1, 0] ∧
      answers lazily inquiries b =
        List.zipWith Answer.plus (answers eagerly inquiries b.purge) (lapses inquiries b) := by
  intro b cells take inquiries
  exact ⟨by decide +kernel, by decide +kernel, answers_lazily (by decide +kernel)⟩

/-- A deletion counts the two cells of a bucket that have expired. -/
theorem answers_lazily_deleted_expired :
    let b := { Backend.atTime 1000 with store := Store.empty.load "script" }
    let cells : CellKeys := ⟨"api:search:TNA", "api:search:AT"⟩
    let inquiries : List Inquiry :=
      [⟨1000, .take "script" cells ⟨1000, 1000000000, 3, 2, 0, 10, 0⟩⟩,
        ⟨10001000, .delete ["api:search:AT", "api:search:TNA"]⟩]
    (b.now :: inquiries.map Inquiry.now).Pairwise (· ≤ ·) ∧
      answers lazily inquiries b = [.result (.ok 0), .deleted (.ok 2)] ∧
      answers eagerly inquiries b.purge = [.result (.ok 0), .deleted (.ok 0)] := by
  decide +kernel

end Inquiry

end TokenQuota
