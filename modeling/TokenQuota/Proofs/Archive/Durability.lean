import TokenQuota.Proofs.Archive.Writing
import TokenQuota.Proofs.Task.Sessions
import TokenQuota.Proofs.Task.Trails

/-!
What survives in a folder. Any access may fail, and whoever works on the folder may stop between
any two accesses and open it again: what is listed can always be read, and a content is made the
current one by a call that succeeds, and by no other.
-/

namespace TokenQuota

namespace Archive

open TokenQuota.Digest
open TokenQuota.Folder (IsIntact Intact Leaves)

/-- The directory of an archive. -/
def directory (a : Archive) : Directory := (folder.get a).directory

/-- The current content, if there is one. -/
def current (a : Archive) : Option Bytes := Folder.current a.directory

/-- Contents are kept in a folder. -/
def IsFolder (a : Archive) : Prop := ∃ f, a.storage = .folder f

/-- What others see of a call. -/
inductive Effect
  /-- A content became the current one. -/
  | made (content : Bytes)
  | signalled

/-- What others see of a step, if anything. -/
inductive Amounts : Archive → Archive → Option Effect → Prop
  | nothing {a a' : Archive} (hcurrent : a'.current = a.current)
      (hpending : a'.pending = a.pending) : Amounts a a' none
  | made {a a' : Archive} {c : Bytes} (hcurrent : a'.current = some c)
      (hpending : a'.pending = a.pending) : Amounts a a' (some (.made c))
  | signalled (a : Archive) : Amounts a a.signal (some .signalled)

/-- While somebody writes to the folder, nobody else does. -/
structure WriterAlone (a a' : Archive) : Prop where
  locked : a.locked = true → a'.locked = true
  directory : a'.directory = a.directory

/-- Writing to the folder. -/
def writing (contents : List Bytes) : Duties Unit Archive where
  inv a := a.IsFolder ∧ IsIntact contents a.directory
  given _ := True
  taken _ a := a.locked = true
  rely _ := WriterAlone
  guar _ _ := True
  guar_refl _ := trivial
  rely_refl _ _ := ⟨id, rfl⟩
  rely_trans h h' := ⟨h'.locked ∘ h.locked, h'.directory.trans h.directory⟩
  rely_taken h := h.locked

/-- What others see of a call to keep a content, if it comes to its end. -/
def effects (c : Bytes) : List Effect := [.made c, .signalled]

/-- Calls to keep contents. -/
def calls (contents : List Bytes) : Trail Bytes Unit Archive Effect where
  duties := writing contents
  Amounts := Amounts
  Allows c l := l <+: effects c
  allows_nil _ := List.nil_prefix
  Grows _ _ := True
  grows_refl _ := trivial
  grows_trans _ _ := trivial

variable {contents : List Bytes} {c : Bytes} {a a' : Archive}

theorem isFolder_set (f : Folder) (a : Archive) : (folder.set f a).IsFolder := ⟨f, rfl⟩

theorem isFolder_congr (h : a'.storage = a.storage) (ha : a.IsFolder) : a'.IsFolder := by
  obtain ⟨f, hf⟩ := ha
  exact ⟨f, h.trans hf⟩

theorem directory_congr (h : a'.storage = a.storage) : a'.directory = a.directory := by
  unfold directory folder
  simp only [h]

theorem directory_eq {f : Folder} (h : a.storage = .folder f) : a.directory = f.directory := by
  unfold directory folder
  simp only [h]

/-- A step of a caller that leaves the folder alone, and takes the lock, leaves it or neither. -/
theorem move_of_storage {m m' : Option Unit} {l : List Effect} (ha : (writing contents).inv a)
    (hl : l <+: effects c) (hstorage : a'.storage = a.storage) (hpending : a'.pending = a.pending)
    (hothers : m = none → a.locked = true → a'.locked = true)
    (htaken : m' = some () → a'.locked = true)
    (hfree : m' = some () → m = none → a.locked = false) :
    (calls contents).protocol.move c (m, l) (m', l) a a' := by
  have hdirectory := directory_congr hstorage
  refine ⟨?_, trivial, none, .nothing ?_ hpending, (List.append_nil l).symm, hl⟩
  · constructor
    · refine ⟨isFolder_congr hstorage ha.1, ?_⟩
      rw [hdirectory]
      exact ha.2
    · trivial
    · intro _ hne hlocked
      refine ⟨fun _ => hothers ?_ hlocked, hdirectory⟩
      cases m with
      | none => rfl
      | some u => exact absurd rfl hne
    · rintro _ rfl
      exact htaken rfl
    · intro _ hm' hne hlocked
      have hnone : m = none := by
        cases m with
        | none => rfl
        | some u => exact absurd rfl hne
      have hboth := (hfree hm' hnone).symm.trans hlocked
      cases hboth
  · rw [current, current, hdirectory]

/-- What others have seen of a call when a content was made the current one, and before. -/
def seen (c : Bytes) (made : Bool) : List Effect := if made then [.made c] else []

theorem seen_begins_effects (c : Bytes) (made : Bool) : seen c made <+: effects c := by
  cases made with
  | false => exact List.nil_prefix
  | true => exact ⟨[.signalled], rfl⟩

/-- Whoever writes to the folder keeps the content there. -/
theorem embeds_keeping :
    (Folder.keeping contents c).Embeds
      ((calls contents).protocol.assuming fun a => a.locked = true) folder () c
      fun made => (some (), seen c made) where
  get_set _ _ := rfl
  inv _ ha := ha.2
  given _ _ := trivial
  rely _ _ _ h := (h.2 () rfl).directory
  move made made' a f ha hgiven h := by
    have hintact : IsIntact contents (folder.set f a).directory := by
      rcases h with ⟨-, hspares⟩ | ⟨-, -, hintact, -⟩
      · exact hspares.isIntact
      · exact hintact
    refine ⟨⟨⟨isFolder_set f a, hintact⟩, trivial, fun _ hne => absurd rfl hne,
      fun _ _ => hgiven.2, fun _ _ hne => absurd rfl hne⟩, trivial, ?_⟩
    rcases h with ⟨rfl, hspares⟩ | ⟨rfl, rfl, -, hcurrent⟩
    · exact ⟨none, .nothing hspares.current rfl, (List.append_nil _).symm, seen_begins_effects c _⟩
    · exact ⟨some (.made c), .made hcurrent rfl, rfl, seen_begins_effects c true⟩

/-- A caller is safe: what others see of its call is all if it succeeds, and nothing if it
fails. -/
theorem safe_keep (hdigests : NoCollision contents) (hc : c ∈ contents) (a : Archive) :
    (calls contents).protocol.Safe c (fun m r _ => m.2 = if r.isOk then effects c else [])
      (keep c).run (none, []) a := by
  refine Protocol.safe_atOnce_bind (f := keepOnShelf c) ?_
  rintro a₁ ha₁ - -
  obtain ⟨f, hf⟩ := ha₁.1
  have haside : keepOnShelf c a₁ = (false, a₁) := by
    unfold keepOnShelf
    rw [hf]
  rw [haside]
  refine ⟨(none, []), move_of_storage ha₁ List.nil_prefix rfl rfl (fun _ h => h) (by rintro ⟨⟩)
    (by rintro ⟨⟩), ?_⟩
  have hheld : (calls contents).protocol.Safe c
      (fun m r _ => m = (none, seen c r.isOk))
      (Action.holding lock (onFolder (Folder.keep c))).run (none, []) a₁ := by
    refine Protocol.safe_holding lock (m := (some (), [])) (H := fun a => a.locked = true)
      (Q := fun m r _ => m = (some (), seen c r.isOk)) (fun _ _ _ _ _ h => h) ?_ ?_ ?_ a₁
    · intro a₂ ha₂ hfree
      exact ⟨move_of_storage ha₂ List.nil_prefix rfl rfl (fun _ _ => rfl) (fun _ => rfl)
        fun _ _ => hfree, rfl⟩
    · intro a₂ hlocked
      have hkeep := Protocol.Safe.onPart_while (n := false) (J := fun a => a.locked = true)
        (fun _ _ _ h => (h.2 () rfl).locked) (fun _ _ h => h) embeds_keeping
        (Folder.safe_keep hdigests hc (folder.get a₂)) hlocked
      refine hkeep.andThen ?_
      rintro _ r a₃ - ⟨made, rfl, rfl, -⟩ a₄ - -
      cases r with
      | ok u => rfl
      | error e => rfl
    · rintro _ r a₂ ha₂ rfl
      exact ⟨(none, seen c r.isOk), move_of_storage ha₂ (seen_begins_effects c _) rfl rfl
        (by rintro ⟨⟩) (by rintro ⟨⟩) (by rintro ⟨⟩), rfl⟩
  refine Protocol.Safe.bind hheld ?_ ?_
  · rintro _ u a₂ - rfl a₃ ha₃ - - -
    refine ⟨(none, effects c), ⟨?_, trivial, some .signalled, .signalled a₃, rfl,
      List.prefix_rfl⟩, fun _ _ _ => rfl⟩
    exact ⟨⟨ha₃.1, ha₃.2⟩, trivial, fun _ _ _ => ⟨id, rfl⟩, by rintro _ ⟨⟩, by rintro _ ⟨⟩⟩
  · rintro _ e a₂ - rfl
    rfl

/-- Nobody else writes to the folder. It may begin to fail, and changes that were signalled may be
noticed. -/
structure Elsewhere (a a' : Archive) : Prop where
  locked : a'.locked = a.locked
  isFolder : a'.IsFolder
  directory : a'.directory = a.directory

/-- The folder is opened again as it was left, and whoever wrote to it is gone. -/
def Reopened (a a' : Archive) : Prop :=
  ∃ f : Folder, a' = ofStorage (.folder f) ∧ f.directory = a.directory

theorem reopened_ofStorage (a : Archive) :
    a.Reopened (ofStorage (.folder ⟨a.directory, .none, fun _ _ => none⟩)) :=
  ⟨_, rfl, rfl⟩

/-- The contents that were to be kept. -/
def asked (sessions : List (Session Bytes Archive (Except QuotaError Unit))) : List Bytes :=
  sessions.flatMap fun y => y.pool.callers.map Caller.request

theorem outside_elsewhere (a a' : Archive) (ha : (writing contents).inv a)
    (h : a.Elsewhere a') : (writing contents).inv a' ∧ True ∧
      ∀ d, (writing contents).taken d a → (writing contents).rely d a a' := by
  refine ⟨⟨h.isFolder, ?_⟩, trivial, fun _ _ => ⟨fun hlocked => h.locked.trans hlocked,
    h.directory⟩⟩
  rw [h.directory]
  exact ha.2

/-- In a session each step shows what it may, and so do all steps of a call. What is left is
intact. -/
theorem effects_of_run {es : List (Event Archive)} {p : Pool Bytes Archive (Except QuotaError Unit)}
    {a : Archive} (hdigests : NoCollision contents) (ha : (writing contents).inv a)
    (hrun : Pool.Run (fun c => (keep c).run) Elsewhere a es p)
    (hasked : ∀ c ∈ p.callers.map Caller.request, c ∈ contents) :
    (writing contents).inv p.state ∧
      ∃ l : List (Event Archive × Option Effect), l.map Prod.fst = es ∧
        (∀ e ∈ l, Amounts e.1.before e.1.after e.2) ∧
        ∀ (n : Nat) (c : Bytes) (t : Task Archive (Except QuotaError Unit)),
          p.callers[n]? = some ⟨c, t⟩ → Trail.marksOf n l <+: effects c ∧
            ∀ r, t = .done r → Trail.marksOf n l = if r.isOk then effects c else [] := by
  obtain ⟨hinv, l, hl, hamounts, hcallers⟩ := Trail.marks_of_run (T := calls contents)
    (A := fun c => c ∈ contents)
    (R := fun c l (r : Except QuotaError Unit) => l = if r.isOk then effects c else [])
    outside_elsewhere (fun _ a hc => safe_keep hdigests hc a) ha hrun hasked fun _ _ => trivial
  exact ⟨hinv, l, hl, fun e he => (hamounts e he).2, hcallers⟩

/-- Every session starts with an intact directory, and leaves one. -/
theorem inv_of_sessions {f : Folder} (hvacant : f.directory.IsVacant)
    {past : List (Session Bytes Archive (Except QuotaError Unit))}
    {x : Session Bytes Archive (Except QuotaError Unit)}
    (h : Session.Row (fun c => (keep c).run) Elsewhere Reopened (ofStorage (.folder f)) past x)
    (hdigests : NoCollision contents) (hasked : ∀ c ∈ asked (past ++ [x]), c ∈ contents) :
    (∀ y ∈ past ++ [x], (writing contents).inv y.start ∧
      Pool.Run (fun c => (keep c).run) Elsewhere y.start y.events y.pool) ∧
      (writing contents).inv x.pool.state := by
  have hreopened : ∀ (_ : List Unit) (a a' : Archive), (writing contents).inv a →
      a.Reopened a' → (writing contents).inv a' := by
    rintro _ a _ ⟨-, hashes, hintact⟩ ⟨f', rfl, hsame⟩
    refine ⟨⟨f', rfl⟩, hashes, ?_⟩
    rw [directory_eq (f := f') rfl, hsame]
    exact hintact
  obtain ⟨hsessions, hlast⟩ := h.kept (f := fun _ => [])
    (A := fun y => ∀ c ∈ y.pool.callers.map Caller.request, c ∈ contents)
    (fun y hy c hc => hasked c (List.mem_flatMap.mpr ⟨y, hy, hc⟩))
    ⟨⟨f, rfl⟩, [], Folder.intact_nil hvacant⟩
    (fun _ _ hy hstart hrun => (effects_of_run hdigests hstart hrun hy).1) hreopened
  exact ⟨fun y hy => ⟨(hsessions y hy).1.elim fun _ hs => hs, (hsessions y hy).2⟩, hlast⟩

/-- What reads a directory reads it in an archive that is opened on it. -/
theorem runsTo_opened {α : Type} {x : Folder.Access α} {g : Shelf → α} {f : Folder} {r : α}
    (hworks : f.Works) (h : Leaves x f.directory (.ok r) f.directory) :
    ∃ a, (do
        match ← Action.read shelf? with
        | some s => return g s
        | none => onFolder x : Keeper α).run.RunsTo (ofStorage (.folder f)) (.ok r) a := by
  have hopened : (ofStorage (.folder f)).Has (fun _ => False) fun d => d = f.directory :=
    has_folder (D := fun d => d = f.directory) hworks rfl false
  obtain ⟨a, hrun, -⟩ := hopened.runsTo_read_ok (fun _ => False.elim) fun d hd => hd ▸ h
  exact ⟨a, hrun⟩

/-- Contents are kept in a folder in which nothing was kept before, through any sequence of
sessions, each of which may be left between any two accesses, while any access may fail. At the end,
wherever that is, every digest that is listed stands for a content that is there, and so does the one
of the current content, which is listed. All contents can be read when no access fails. In each
session a step of a call makes its content the current one, signals the change, or shows nothing.
What a call that succeeds shows is one of each, and what a call that fails shows is nothing. -/
theorem durability {f : Folder} (hvacant : f.directory.IsVacant)
    {past : List (Session Bytes Archive (Except QuotaError Unit))}
    {x : Session Bytes Archive (Except QuotaError Unit)}
    (h : Session.Row (fun c => (keep c).run) Elsewhere Reopened (ofStorage (.folder f)) past x)
    (hdigests : NoCollision (asked (past ++ [x]))) :
    (∃ hashes row, Intact (asked (past ++ [x])) x.pool.state.directory hashes ∧
      row.map contentHash = hashes ∧
      ∀ f' : Folder, f'.Works → f'.directory = x.pool.state.directory →
        (∃ a, history.run.RunsTo (ofStorage (.folder f')) (.ok row) a) ∧
          ∃ a, current?.run.RunsTo (ofStorage (.folder f')) (.ok x.pool.state.current) a) ∧
    ∀ y ∈ past ++ [x], ∃ l : List (Event Archive × Option Effect), l.map Prod.fst = y.events ∧
      (∀ e ∈ l, Amounts e.1.before e.1.after e.2) ∧
      ∀ (n : Nat) (c : Bytes) (t : Task Archive (Except QuotaError Unit)),
        y.pool.callers[n]? = some ⟨c, t⟩ → Trail.marksOf n l <+: effects c ∧
          ∀ r, t = .done r → Trail.marksOf n l = if r.isOk then effects c else [] := by
  obtain ⟨hsessions, -, hashes, hintact⟩ := inv_of_sessions hvacant h hdigests fun _ hc => hc
  constructor
  · obtain ⟨row, hhistory, hrow, -⟩ := Folder.leaves_history_of_intact hintact
    refine ⟨hashes, row, hintact, hrow, fun f' hworks hdirectory => ?_⟩
    have hcurrent := Folder.leaves_current?_of_intact hintact
    rw [← hdirectory] at hhistory hcurrent
    rw [current, ← hdirectory]
    exact ⟨runsTo_opened hworks hhistory, runsTo_opened hworks hcurrent⟩
  · intro y hy
    obtain ⟨hstart, hrun⟩ := hsessions y hy
    exact (effects_of_run hdigests hstart hrun fun c hc => List.mem_flatMap.mpr ⟨y, hy, hc⟩).2

/-- A call fails when its content is listed already, but is not the current one yet. The folder is
opened again, and the content is kept after all. -/
theorem durability_torn :
    let broken : Folder := ⟨.absent, ⟨0, fun i => i == 6⟩, fun _ _ => some []⟩
    let first := (keep [1]).run.run (fun _ a => a) (ofStorage (.folder broken))
    let opened := ofStorage (.folder ⟨first.2.directory, .none, fun _ _ => none⟩)
    let second := (keep [1]).run.run (fun _ a => a) opened
    broken.directory.IsVacant ∧
      first.1.map Except.isOk = some false ∧ second.1.map Except.isOk = some true ∧
      ∃ (y x : Session Bytes Archive (Except QuotaError Unit)) (hashes : List String)
        (l l' : List (Event Archive × Option Effect)),
        x.pool.state = second.2 ∧ asked [y, x] = [[1], [1]] ∧ NoCollision (asked [y, x]) ∧
        Intact (asked [y, x]) second.2.directory hashes ∧
        l.map Prod.fst = y.events ∧ Trail.marksOf 0 l = [] ∧
        l'.map Prod.fst = x.events ∧ Trail.marksOf 0 l' = effects [1] := by
  intro broken first opened second
  have hvacant : broken.directory.IsVacant := ⟨nofun, fun _ => nofun, rfl, rfl⟩
  have hfailed : first.1.map Except.isOk = some false := by decide +kernel
  have hok : second.1.map Except.isOk = some true := by decide +kernel
  have hdigests : NoCollision [[1], [1]] := by decide +kernel
  refine ⟨hvacant, hfailed, hok, ?_⟩
  obtain ⟨r₁, hr₁, hisOk₁⟩ := Option.map_eq_some_iff.mp hfailed
  obtain ⟨r₂, hr₂, hisOk₂⟩ := Option.map_eq_some_iff.mp hok
  obtain ⟨es₁, hrun₁, -, -⟩ := Session.exists_alone (fun c => (keep c).run) Elsewhere [1] hr₁
  obtain ⟨es₂, hrun₂, -, -⟩ := Session.exists_alone (fun c => (keep c).run) Elsewhere [1] hr₂
  change Pool.Run _ _ _ es₁ ⟨first.2, _⟩ at hrun₁
  change Pool.Run _ _ _ es₂ ⟨second.2, _⟩ at hrun₂
  have hreopened : first.2.Reopened opened := reopened_ofStorage first.2
  clear_value second opened first
  obtain ⟨⟨hashes, -, hintact, -⟩, hsessions⟩ :=
    durability hvacant (.next (.first hrun₁) hreopened hrun₂) hdigests
  obtain ⟨l, hl, -, hmarks⟩ := hsessions _ List.mem_cons_self
  obtain ⟨l', hl', -, hmarks'⟩ := hsessions _ (List.mem_cons_of_mem _ List.mem_cons_self)
  refine ⟨⟨ofStorage (.folder broken), es₁, first.2, [⟨[1], .done r₁⟩]⟩,
    ⟨opened, es₂, second.2, [⟨[1], .done r₂⟩]⟩, hashes, l, l', rfl, rfl, hdigests, hintact, hl, ?_,
    hl', ?_⟩
  · rw [(hmarks 0 [1] _ rfl).2 r₁ rfl, hisOk₁]
    rfl
  · rw [(hmarks' 0 [1] _ rfl).2 r₂ rfl, hisOk₂]
    rfl

end Archive

end TokenQuota
