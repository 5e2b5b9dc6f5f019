import TokenQuota.Proofs.Bucket.Finding
import TokenQuota.Proofs.Bucket.Working

/-!
Requests for one bucket are answered as if no others were made: each request finds its bucket and
takes from it, and neither its answer nor the cells of its bucket depend on the requests for other
buckets in between.
-/

namespace TokenQuota

/-- A request that names a bucket in any words, at a reading of the clock. -/
structure Visit where
  ns : String
  name : String
  requested : Int
  maxWait : Nat
  now : Int
deriving DecidableEq

/-- A request with the bucket that was found for it, and its answer. -/
structure Receipt where
  visit : Visit
  bucket : Bucket
  answer : Option (Except QuotaError Verdict)

/-- What tells the bucket of a request from others. -/
def Receipt.identity (t : Receipt) : String × String := (t.bucket.ns, t.bucket.name)

/-- All but the number of the bucket. -/
def Receipt.terms (t : Receipt) :
    Visit × (String × String × BucketConfig × Bool) × Option (Except QuotaError Verdict) :=
  (t.visit, t.bucket.terms, t.answer)

/-- The buckets of a configuration, and the store that they take from. -/
structure Desk where
  container : Container
  roster : Roster
  link : Link

namespace Link

/-- Makes a request alone, at its reading of the clock. -/
def answer (elapse : Nat → Link → Link) (retry : Retry) (v : Visit) (b : Bucket) (l : Link) :
    Option (Except QuotaError Verdict) × Link :=
  (take retry b v.requested v.maxWait).run.run elapse { l with backend.now := v.now }

/-- Makes requests for buckets that were found, one after the other. -/
def answers (elapse : Nat → Link → Link) (retry : Retry) :
    List (Visit × Bucket) → Link → List Receipt × Link
  | [], l => ([], l)
  | (v, b) :: rest, l =>
    let (answer, l) := answer elapse retry v b l
    let (receipts, l) := answers elapse retry rest l
    (⟨v, b, answer⟩ :: receipts, l)

end Link

/-- Finds the bucket of each request, and makes the request. Those without a bucket come to
nothing. -/
def Desk.serve (elapse : Nat → Link → Link) (retry : Retry) :
    List Visit → Desk → List Receipt × Desk
  | [], d => ([], d)
  | v :: rest, d =>
    match d.container.find v.ns v.name d.roster with
    | (none, container, roster) => serve elapse retry rest { d with container, roster }
    | (some b, container, roster) =>
      let (answer, link) := Link.answer elapse retry v b d.link
      let (receipts, after) := serve elapse retry rest ⟨container, roster, link⟩
      (⟨v, b, answer⟩ :: receipts, after)

/-- The desk of a configuration, before any request. -/
def Desk.make (c : ServiceConfig) (r : Roster) (l : Link) : Desk :=
  ⟨(Container.make c r).1, (Container.make c r).2, l⟩

/-- Buckets of the same terms have the same keys and the same limits. -/
theorem Bucket.keys_limits_of_terms_eq {b b' : Bucket} (h : b.terms = b'.terms) :
    b.keys = b'.keys ∧ b.limits = b'.limits := by
  obtain ⟨hns, hrest⟩ := Prod.mk.inj h
  obtain ⟨hname, hrest⟩ := Prod.mk.inj hrest
  obtain ⟨hconfig, -⟩ := Prod.mk.inj hrest
  rw [keys, keys, limits, limits, hns, hname, hconfig]
  exact ⟨rfl, rfl⟩

namespace Link

variable {l l' : Link} {b : Bucket}

/-- The two cells of a bucket in the store. -/
def pair (l : Link) (keys : CellKeys) : Option Cell × Option Cell := l.backend.store.pair keys

/-- What the store decides on a request at its reading of the clock. -/
def decided (v : Visit) (b : Bucket) (l : Link) : Decision × Store :=
  l.backend.store.take v.now b.keys (b.limits.take v.now v.requested v.maxWait)

theorem answer_spec (elapse : Nat → Link → Link) (retry : Retry) (v : Visit) (b : Bucket)
    (h : l.Works) :
    ∃ l', answer elapse retry v b l = (some (.ok (.ofResult (decided v b l).1.result)), l') ∧
      l'.Works ∧ l'.backend.store.cells = (decided v b l).2.cells := by
  have hset : Works { l with backend.now := v.now } :=
    ⟨h.unlocked, h.backend.setNow v.now, h.current⟩
  obtain ⟨l', hrun, hworks, hcells⟩ := runsTo_take hset retry b v.requested v.maxWait
  exact ⟨l', hrun.run elapse, hworks, hcells⟩

/-- What the store decides, and what it makes of the cells of the bucket, depends on the terms of
the bucket and on those cells alone. -/
theorem decided_congr (v : Visit) {b b' : Bucket} (hterms : b.terms = b'.terms)
    (hpair : l.pair b.keys = l'.pair b.keys) :
    (decided v b l).1 = (decided v b' l').1 ∧
      (decided v b l).2.pair b.keys = (decided v b' l').2.pair b.keys := by
  obtain ⟨hkeys, hlimits⟩ := Bucket.keys_limits_of_terms_eq hterms
  have hsame : decided v b' l' = decided v b l' := by rw [decided, decided, hkeys, hlimits]
  rw [hsame]
  exact Store.take_of_pair_eq (CellKeys.nextAvailable_ne_accumulated b.ns b.name) hpair v.now
    (b.limits.take v.now v.requested v.maxWait)

/-- A request for a bucket is answered by its terms and the cells of that bucket alone. -/
theorem answer_congr (elapse : Nat → Link → Link) (retry : Retry) (v : Visit) {b b' : Bucket}
    (hterms : b.terms = b'.terms) (h : l.Works) (h' : l'.Works)
    (hpair : l.pair b.keys = l'.pair b.keys) :
    (answer elapse retry v b l).1 = (answer elapse retry v b' l').1 ∧
      (answer elapse retry v b l).2.pair b.keys = (answer elapse retry v b' l').2.pair b.keys := by
  obtain ⟨l₁, hanswer, -, hcells⟩ := answer_spec elapse retry v b h
  obtain ⟨l₁', hanswer', -, hcells'⟩ := answer_spec elapse retry v b' h'
  obtain ⟨hdecision, hafter⟩ := decided_congr v hterms hpair
  rw [hanswer, hanswer', hdecision]
  refine ⟨rfl, ?_⟩
  rw [pair, pair, Store.pair_congr hcells, Store.pair_congr hcells']
  exact hafter

/-- A request for a bucket leaves the cells of others as they are. -/
theorem pair_answer_of_apart (elapse : Nat → Link → Link) (retry : Retry) (v : Visit) (b : Bucket)
    (h : l.Works) {keys : CellKeys} (hapart : keys.Apart b.keys) :
    (answer elapse retry v b l).2.pair keys = l.pair keys := by
  obtain ⟨l₁, hanswer, -, hcells⟩ := answer_spec elapse retry v b h
  rw [hanswer, pair, Store.pair_congr hcells]
  exact Store.pair_take_of_apart hapart _ _ _

theorem works_answer (elapse : Nat → Link → Link) (retry : Retry) (v : Visit) (b : Bucket)
    (h : l.Works) : (answer elapse retry v b l).2.Works := by
  obtain ⟨l₁, hanswer, hworks, -⟩ := answer_spec elapse retry v b h
  rw [hanswer]
  exact hworks

theorem answers_cons (elapse : Nat → Link → Link) (retry : Retry) (first : Visit × Bucket)
    (rest : List (Visit × Bucket)) (l : Link) :
    answers elapse retry (first :: rest) l =
      (⟨first.1, first.2, (answer elapse retry first.1 first.2 l).1⟩ ::
          (answers elapse retry rest (answer elapse retry first.1 first.2 l).2).1,
        (answers elapse retry rest (answer elapse retry first.1 first.2 l).2).2) := rfl

theorem answers_append_singleton (elapse : Nat → Link → Link) (retry : Retry)
    (asked : List (Visit × Bucket)) (v : Visit) (b : Bucket) (l : Link) :
    answers elapse retry (asked ++ [(v, b)]) l =
      ((answers elapse retry asked l).1 ++
          [⟨v, b, (answer elapse retry v b (answers elapse retry asked l).2).1⟩],
        (answer elapse retry v b (answers elapse retry asked l).2).2) := by
  induction asked generalizing l with
  | nil => rfl
  | cons first rest ih =>
      rw [List.cons_append, answers_cons, ih, answers_cons]
      rfl

theorem works_answers (elapse : Nat → Link → Link) (retry : Retry)
    (asked : List (Visit × Bucket)) (h : l.Works) : (answers elapse retry asked l).2.Works := by
  induction asked generalizing l with
  | nil => exact h
  | cons first rest ih => exact ih (works_answer elapse retry first.1 first.2 h)

/-- Where other requests left the cells of a bucket as the requests for it do alone, one more
request for it is answered in both runs alike. -/
theorem answers_append_of_pair_eq (elapse : Nat → Link → Link) (retry : Retry)
    (asked : List (Visit × Bucket)) (v : Visit) {b b' : Bucket} (hterms : b.terms = b'.terms)
    (h : l.Works) (hpair : (answers elapse retry asked l).2.pair b.keys = l'.pair b.keys) :
    let alone := answers elapse retry (asked ++ [(v, b)]) l
    alone.1.map Receipt.answer = (answers elapse retry asked l).1.map Receipt.answer ++
        [some (.ok (.ofResult (decided v b' l').1.result))] ∧
      alone.2.pair b.keys = (decided v b' l').2.pair b.keys := by
  obtain ⟨l₁, hanswer, -, hcells⟩ :=
    answer_spec elapse retry v b (works_answers elapse retry asked h)
  obtain ⟨hdecision, hafter⟩ := decided_congr v hterms hpair
  rw [answers_append_singleton, hanswer, hdecision]
  exact ⟨List.map_append, (Store.pair_congr hcells b.keys).trans hafter⟩

end Link

namespace Desk

variable {c : ServiceConfig} {d : Desk}

/-- The buckets are those of a configuration, and the link works. -/
structure Stands (c : ServiceConfig) (d : Desk) : Prop where
  serves : d.container.Serves c
  lawful : d.container.Lawful
  works : d.link.Works

theorem stands_make (c : ServiceConfig) (r : Roster) {l : Link} (hl : l.Works) :
    (Desk.make c r l).Stands c :=
  ⟨Container.serves_make c r, Container.lawful_make c r, hl⟩

variable (elapse : Nat → Link → Link) (retry : Retry) {v : Visit} {container : Container}
  {roster : Roster} {b : Bucket}

theorem serve_of_none (hfind : d.container.find v.ns v.name d.roster = (none, container, roster))
    (rest : List Visit) :
    d.serve elapse retry (v :: rest) = serve elapse retry rest ⟨container, roster, d.link⟩ := by
  rw [serve, hfind]

theorem serve_of_some (hfind : d.container.find v.ns v.name d.roster = (some b, container, roster))
    (rest : List Visit) :
    d.serve elapse retry (v :: rest) =
      (⟨v, b, (Link.answer elapse retry v b d.link).1⟩ ::
          (serve elapse retry rest
            ⟨container, roster, (Link.answer elapse retry v b d.link).2⟩).1,
        (serve elapse retry rest
          ⟨container, roster, (Link.answer elapse retry v b d.link).2⟩).2) := by
  rw [serve, hfind]

theorem Stands.of_find {found : Option Bucket} (h : d.Stands c)
    (hfind : d.container.find v.ns v.name d.roster = (found, container, roster)) {l : Link}
    (hl : l.Works) :
    Stands c ⟨container, roster, l⟩ ∧ ∀ b, found = some b → c.Offers b.terms := by
  have hserves := (Container.follows_find d.container v.ns v.name d.roster).serves c h.serves
  have hlawful := Container.lawful_find h.lawful v.ns v.name d.roster
  rw [hfind] at hserves hlawful
  refine ⟨⟨hserves, hlawful, hl⟩, ?_⟩
  rintro b rfl
  exact Container.offers_of_find h.serves h.lawful (congrArg Prod.fst hfind)

/-- Every request that finds a bucket finds one that the configuration offers, and is answered. -/
theorem answered_serve (visits : List Visit) (hd : d.Stands c) :
    ∀ t ∈ (d.serve elapse retry visits).1,
      c.Offers t.bucket.terms ∧ ∃ verdict, t.answer = some (.ok verdict) := by
  induction visits generalizing d with
  | nil =>
      intro t ht
      cases ht
  | cons v rest ih =>
      rcases hfind : d.container.find v.ns v.name d.roster with ⟨found, container, roster⟩
      cases found with
      | none =>
          rw [serve_of_none elapse retry hfind]
          exact ih (hd.of_find hfind hd.works).1
      | some b =>
          obtain ⟨hstands, hoffers⟩ :=
            hd.of_find hfind (Link.works_answer elapse retry v b hd.works)
          obtain ⟨l', hanswer, -, -⟩ := Link.answer_spec elapse retry v b hd.works
          rw [serve_of_some elapse retry hfind]
          intro t ht
          rcases List.mem_cons.mp ht with rfl | ht
          · exact ⟨hoffers b rfl, _, congrArg Prod.fst hanswer⟩
          · exact ih hstands t ht

/-- The requests for one bucket have the same answers, and leave the same cells, when they are
made without the others. -/
theorem serve_alone (hcheck : c.check = .ok ()) {ns name : String} {config : BucketConfig}
    {dynamic : Bool} (hoffered : c.Offers (ns, name, config, dynamic)) (visits : List Visit)
    (hd : d.Stands c) {l : Link} (hl : l.Works)
    (hpair : l.pair (.of ns name) = d.link.pair (.of ns name)) :
    let served := d.serve elapse retry visits
    let mine := served.1.filter fun t => t.identity = (ns, name)
    let alone := Link.answers elapse retry (mine.map fun t => (t.visit, t.bucket)) l
    alone.1 = mine ∧ alone.2.pair (.of ns name) = served.2.link.pair (.of ns name) := by
  induction visits generalizing d l with
  | nil => exact ⟨rfl, hpair⟩
  | cons v rest ih =>
      dsimp only
      rcases hfind : d.container.find v.ns v.name d.roster with ⟨found, container, roster⟩
      cases found with
      | none =>
          rw [serve_of_none elapse retry hfind]
          exact ih (hd.of_find hfind hd.works).1 hl hpair
      | some b =>
          obtain ⟨hstands, hoffers⟩ :=
            hd.of_find hfind (Link.works_answer elapse retry v b hd.works)
          rw [serve_of_some elapse retry hfind]
          by_cases hmine : (b.ns, b.name) = (ns, name)
          · -- The request is made in both runs, on the same two cells.
            rw [List.filter_cons_of_pos (by simpa [Receipt.identity] using hmine)]
            obtain ⟨rfl, rfl⟩ := Prod.mk.inj hmine
            obtain ⟨hanswer, hafter⟩ :=
              Link.answer_congr elapse retry v (rfl : b.terms = b.terms) hl hd.works hpair
            obtain ⟨hreceipts, hcells⟩ :=
              ih hstands (Link.works_answer elapse retry v b hl) hafter
            rw [List.map_cons, Link.answers]
            exact ⟨congrArg₂ (fun answer receipts => ⟨v, b, answer⟩ :: receipts) hanswer hreceipts,
              hcells⟩
          · -- The request is left out of the other run, and the cells are not its own.
            rw [List.filter_cons_of_neg (by simpa [Receipt.identity] using hmine)]
            have hapart := ServiceConfig.apart_of_offers hcheck hoffered (hoffers b rfl)
              (Ne.symm hmine)
            have hafter := Link.pair_answer_of_apart elapse retry v b hd.works hapart
            exact ih hstands hl (hpair.trans hafter.symm)

/-- The requests for one bucket find it again, and have the same answers, when those for others are
not even looked up. -/
theorem serve_again (hcheck : c.check = .ok ()) {ns name : String} {config : BucketConfig}
    {dynamic : Bool} (hoffered : c.Offers (ns, name, config, dynamic))
    (hlimit : name ≠ defaultBucketName ∨ c.Unlimited) (visits : List Visit) {d' : Desk}
    (hd : d.Stands c) (hd' : d'.Stands c)
    (hechoes : Container.Echoes (ns, name) d.container d'.container)
    (hpair : d'.link.pair (.of ns name) = d.link.pair (.of ns name)) :
    let served := d.serve elapse retry visits
    let mine := served.1.filter fun t => t.identity = (ns, name)
    let again := d'.serve elapse retry (mine.map Receipt.visit)
    again.1.map Receipt.terms = mine.map Receipt.terms ∧
      again.2.link.pair (.of ns name) = served.2.link.pair (.of ns name) := by
  induction visits generalizing d d' with
  | nil => exact ⟨rfl, hpair⟩
  | cons v rest ih =>
      dsimp only
      rcases hfind : d.container.find v.ns v.name d.roster with ⟨found, container, roster⟩
      have hcontainer : (d.container.find v.ns v.name d.roster).2.1 = container := by rw [hfind]
      have hfound : (d.container.find v.ns v.name d.roster).1 = found := by rw [hfind]
      cases found with
      | none =>
          rw [serve_of_none elapse retry hfind]
          refine ih (hd.of_find hfind hd.works).1 hd' ?_ hpair
          rw [← hcontainer]
          refine hechoes.find_other hd.serves fun x hx => ?_
          rw [hfound] at hx
          cases hx
      | some b =>
          obtain ⟨hstands, hoffers⟩ :=
            hd.of_find hfind (Link.works_answer elapse retry v b hd.works)
          rw [serve_of_some elapse retry hfind]
          by_cases hmine : (b.ns, b.name) = (ns, name)
          · rw [List.filter_cons_of_pos (by simpa [Receipt.identity] using hmine)]
            obtain ⟨b', hfound', hterms, hafterEchoes⟩ := hechoes.find_mine hcheck hd.serves
              hd'.serves hd.lawful hd'.lawful hlimit hfound hmine d'.roster
            rcases hfind' : d'.container.find v.ns v.name d'.roster with
              ⟨found', container', roster'⟩
            rw [hfind'] at hfound' hafterEchoes
            rw [hcontainer] at hafterEchoes
            cases hfound'
            obtain ⟨hstands', -⟩ :=
              hd'.of_find hfind' (Link.works_answer elapse retry v b' hd'.works)
            have hkeys : CellKeys.of ns name = b'.keys := by
              obtain ⟨rfl, rfl⟩ := Prod.mk.inj hmine
              exact (Bucket.keys_limits_of_terms_eq hterms.symm).1
            rw [hkeys] at hpair ih ⊢
            obtain ⟨hanswer, hafter⟩ :=
              Link.answer_congr elapse retry v hterms hd'.works hd.works hpair
            obtain ⟨hreceipts, hcells⟩ := ih hstands hstands' hafterEchoes hafter
            rw [List.map_cons, serve_of_some elapse retry hfind']
            refine ⟨?_, hcells⟩
            rw [List.map_cons, List.map_cons, hreceipts, Receipt.terms, Receipt.terms, hterms,
              hanswer]
          · rw [List.filter_cons_of_neg (by simpa [Receipt.identity] using hmine)]
            have hapart := ServiceConfig.apart_of_offers hcheck hoffered (hoffers b rfl)
              (Ne.symm hmine)
            have hafter := Link.pair_answer_of_apart elapse retry v b hd.works hapart
            refine ih hstands hd' ?_ (hpair.trans hafter.symm)
            rw [← hcontainer]
            refine hechoes.find_other hd.serves fun x hx => ?_
            rw [hfound, Option.some.injEq] at hx
            rwa [← hx]

theorem echoes_make (c : ServiceConfig) (r : Roster) (l : Link) (i : String × String) :
    Container.Echoes i (Desk.make c r l).container (Desk.make c r l).container := by
  refine ⟨.refl _, fun key name _ => ?_, rfl⟩
  unfold Container.dynamicOf
  cases hnb : (Desk.make c r l).container.namespaces.get? key with
  | none => rfl
  | some nb =>
      rw [Option.bind_some, Container.dynamic_make c r hnb]
      rfl

/-- Requests that name buckets in any words, on a store without faults: each that finds a bucket is
answered, and those for one bucket have the answers, and leave the cells, that they would have and
leave if only they were made. That holds as well if only they were looked up, unless the bucket is a
default to which names fall for want of room. Different buckets have no key in common. -/
theorem isolation (hcheck : c.check = .ok ()) (r : Roster) {l : Link} (hl : l.Works)
    (visits : List Visit) :
    let served := (Desk.make c r l).serve elapse retry visits
    (∀ t ∈ served.1, c.Offers t.bucket.terms ∧ ∃ verdict, t.answer = some (.ok verdict)) ∧
      (∀ ns name config dynamic, c.Offers (ns, name, config, dynamic) →
        let mine := served.1.filter fun t => t.identity = (ns, name)
        let alone := Link.answers elapse retry (mine.map fun t => (t.visit, t.bucket)) l
        let again := (Desk.make c r l).serve elapse retry (mine.map Receipt.visit)
        (alone.1 = mine ∧ alone.2.pair (.of ns name) = served.2.link.pair (.of ns name)) ∧
          (name ≠ defaultBucketName ∨ c.Unlimited →
            again.1.map Receipt.terms = mine.map Receipt.terms ∧
              again.2.link.pair (.of ns name) = served.2.link.pair (.of ns name))) ∧
      ∀ ns name config dynamic ns' name' config' dynamic', c.Offers (ns, name, config, dynamic) →
        c.Offers (ns', name', config', dynamic') → (ns, name) ≠ (ns', name') →
          (CellKeys.of ns name).Apart (.of ns' name') := by
  have hmake := stands_make c r hl
  refine ⟨answered_serve elapse retry visits hmake, ?_, ?_⟩
  · intro ns name config dynamic hoffered
    refine ⟨serve_alone elapse retry hcheck hoffered visits hmake hl rfl, fun hlimit => ?_⟩
    exact serve_again elapse retry hcheck hoffered hlimit visits hmake hmake
      (echoes_make c r l (ns, name)) rfl
  · intro ns name config dynamic ns' name' config' dynamic' hoffers hoffers'
    exact ServiceConfig.apart_of_offers hcheck hoffers hoffers'

/-- A namespace with a template that has room for one dynamic bucket, and names that are no names:
the second dynamic name and a name with a separator fall to the default of the namespace. -/
theorem isolation_limited :
    let bucket : BucketConfig := .ofRate 10 5
    let c : ServiceConfig := { ServiceConfig.empty with
      namespaces := NameMap.empty.insert "api"
        (((NamespaceConfig.ofName "api").withTemplate bucket 1).withDefault bucket) }
    let l : Link := ⟨⟨some ⟨0, 1, "take"⟩, false⟩,
      { Backend.atTime 0 with store := ⟨∅, ["take"], 1⟩ }⟩
    let retry : Retry := ⟨1, 0, fun _ => 0⟩
    let visits : List Visit := [⟨"api", "a", 4, 0, 1000⟩, ⟨"api", "b", 3, 0, 1000⟩,
      ⟨"api", "a", 1, 0, 2000⟩, ⟨"api", "a:b", 2, 0, 3000⟩, ⟨"other", "a", 1, 0, 3000⟩]
    let served := (Desk.make c .empty l).serve (fun _ l => l) retry visits
    let mine := served.1.filter fun t => t.identity = ("api", defaultBucketName)
    c.check = .ok () ∧ l.Works ∧ c.Offers ("api", defaultBucketName, bucket, false) ∧
      mine.map Receipt.visit = [⟨"api", "b", 3, 0, 1000⟩, ⟨"api", "a:b", 2, 0, 3000⟩] ∧
      (Link.answers (fun _ l => l) retry (mine.map fun t => (t.visit, t.bucket)) l).1 = mine := by
  intro bucket c l retry visits served mine
  have hcheck : c.check = .ok () := by decide +kernel
  have hl : l.Works := by
    refine ⟨rfl, ⟨fun _ => rfl, fun _ => rfl, fun _ => rfl, fun _ => rfl, fun _ => rfl, nofun⟩, ?_⟩
    rintro h ⟨⟩
    decide
  have hoffered : c.Offers ("api", defaultBucketName, bucket, false) :=
    .fallback (show c.namespaces.get? "api" =
      some (((NamespaceConfig.ofName "api").withTemplate bucket 1).withDefault bucket) by
        decide +kernel) rfl
  refine ⟨hcheck, hl, hoffered, by decide +kernel, ?_⟩
  exact ((isolation (fun _ l => l) retry hcheck .empty hl visits).2.1 _ _ _ _ hoffered).1.1

end Desk

end TokenQuota
