import RainbowBrackets.Proofs.Tracker.Operation
import RainbowBrackets.Registry

/-!
Open documents do not meet.

The documents share a map and a counter, and still each of them is treated as if it were the only
one: what is done under other ids does not reach it, and once it is closed its id leads nowhere,
since the counter never comes back to it.

* `Registry.Action`, `Registry.act`, `Registry.run`: what can be done with the open documents, and
  any number of such actions; `Registry.given`: the ids that a run gives out;
* `Registry.ownOperations`: the part of a run that concerns one document, and
  `Registry.kindsAfter`: the kinds that a document tracks that is opened after a run;
* `Registry.nextId_run`, `Registry.given_eq_range'`: the counter counts, up to its end;
* `Registry.get?_run`: an open document has its own operations behind it, and a closed one does not
  come back; `Registry.exists_register_of_get?_run`: no document is open that was not opened;
* `isolated_run` (**isolation**): the result.
-/

namespace RainbowBrackets

namespace Registry

open Tracker (Operation)

/-! ### Runs -/

/-- What can be done with the open documents. -/
inductive Action
  | register
  | close (id : ℕ)
  | get (id : ℕ)
  | modify (id : ℕ) (op : Operation)
  | setDefaultKinds (kinds : KindSet)
  | resetAll

variable {r : Registry} {a : Action} {acts : List Action} {id : ℕ} {t : Tracker}

/-- The action opens a document. -/
def Action.opens : Action → Bool
  | .register => true
  | _ => false

/-- The action closes the document `id`. -/
def Action.closes (id : ℕ) : Action → Bool
  | .close i => i = id
  | _ => false

/-- What the action does to the tracker of the document `id` while that is open. -/
def Action.on? (id : ℕ) : Action → Option Operation
  | .modify i op => if i = id then some op else none
  | .resetAll => some .reset
  | _ => none

/-- What becomes of the open documents. -/
def act (r : Registry) : Action → Registry
  | .register => r.register.1
  | .close id => (r.close id).1
  | .get _ => r
  | .modify id op => r.modify id (·.perform op)
  | .setDefaultKinds kinds => r.setDefaultKinds kinds
  | .resetAll => r.resetAll

/-- Actions one after the other. -/
def run (r : Registry) (acts : List Action) : Registry := acts.foldl act r

/-- The ids that a run gives out, in order. -/
def given (r : Registry) : List Action → List ℕ
  | [] => []
  | a :: acts => (if a.opens then [r.register.2] else []) ++ given (r.act a) acts

/-- What a run does to the tracker of the document `id`. -/
def ownOperations (id : ℕ) (acts : List Action) : List Operation := acts.filterMap (Action.on? id)

/-- The kinds that a document tracks that is opened after a run. -/
def kindsAfter (kinds : KindSet) : List Action → KindSet
  | [] => kinds
  | .setDefaultKinds kinds :: acts => kindsAfter kinds acts
  | _ :: acts => kindsAfter kinds acts

lemma run_append (r : Registry) (acts acts' : List Action) :
    r.run (acts ++ acts') = (r.run acts).run acts' :=
  List.foldl_append

lemma given_append (r : Registry) (acts acts' : List Action) :
    r.given (acts ++ acts') = r.given acts ++ (r.run acts).given acts' := by
  induction acts generalizing r with
  | nil => rfl
  | cons a acts ih =>
      rw [List.cons_append, given, given, ih, List.append_assoc]
      rfl

lemma defaultKinds_run (r : Registry) (acts : List Action) :
    (r.run acts).defaultKinds = kindsAfter r.defaultKinds acts := by
  induction acts generalizing r with
  | nil => rfl
  | cons a acts ih =>
      refine (ih (r.act a)).trans ?_
      cases a with
      | modify i op =>
          rw [act, modify]
          split <;> rfl
      | register | close | get | setDefaultKinds | resetAll => rfl

/-! ### The counter -/

lemma nextId_act (h : r.nextId + (if a.opens then 1 else 0) ≤ lastId) :
    (r.act a).nextId = r.nextId + if a.opens then 1 else 0 := by
  cases a with
  | register => exact min_eq_left h
  | modify i op =>
      rw [act, modify]
      split <;> rfl
  | close | get | setDefaultKinds | resetAll => rfl

/-- The counter counts the documents that are opened, as long as it is not at its end. -/
lemma nextId_run (h : r.nextId + acts.countP Action.opens ≤ lastId) :
    (r.run acts).nextId = r.nextId + acts.countP Action.opens := by
  induction acts generalizing r with
  | nil => rfl
  | cons a acts ih =>
      rw [List.countP_cons] at h ⊢
      have ha := nextId_act (r := r) (a := a) (by omega)
      have hrun := ih (r := r.act a) (by omega)
      exact hrun.trans (by omega)

/-- The ids that a run gives out are consecutive. -/
lemma given_eq_range' (h : r.nextId + acts.countP Action.opens ≤ lastId) :
    r.given acts = List.range' r.nextId (acts.countP Action.opens) := by
  induction acts generalizing r with
  | nil => rfl
  | cons a acts ih =>
      rw [List.countP_cons] at h ⊢
      have ha := nextId_act (r := r) (a := a) (by omega)
      rw [given, ih (by omega), ha]
      cases a.opens with
      | true => rfl
      | false => rfl

/-! ### One document -/

lemma ownOperations_cons (id : ℕ) (a : Action) (acts : List Action) :
    ownOperations id (a :: acts) = (a.on? id).toList ++ ownOperations id acts := by
  rw [ownOperations, List.filterMap_cons]
  cases a.on? id <;> rfl

lemma any_closes_iff : acts.any (Action.closes id) = true ↔ .close id ∈ acts := by
  rw [List.any_eq_true]
  constructor
  · rintro ⟨a, ha, hid⟩
    cases a with
    | close i =>
        obtain rfl : i = id := of_decide_eq_true hid
        exact ha
    | register | get | modify | setDefaultKinds | resetAll => exact absurd hid Bool.false_ne_true
  · exact fun h => ⟨_, h, decide_eq_true rfl⟩

/-- What an action does at an id that it does not give out. -/
lemma get?_act (hid : a.opens = true → id ≠ r.nextId) : (r.act a).get? id
    = if a.closes id then none else (r.get? id).map (·.performAll (a.on? id).toList) := by
  have hsame : (r.get? id).map (·.performAll []) = r.get? id := Option.map_id'
  cases a with
  | register => exact (get?_register r id).trans ((if_neg (hid rfl)).trans hsame.symm)
  | close i =>
      refine (get?_close r i id).trans ?_
      simp only [Action.closes, decide_eq_true_eq, eq_comm (a := i), Action.on?,
        Option.toList_none, hsame]
  | modify i op =>
      refine (get?_modify r i id _).trans ?_
      simp only [Action.closes, Action.on?, eq_comm (a := i), Bool.false_eq_true, if_false]
      split
      · rfl
      · exact hsame.symm
  | resetAll => exact get?_resetAll r id
  | get | setDefaultKinds => exact hsame.symm

/-- **One document.** A document that is open before a run has its own operations behind it after
the run, unless it was closed; and one that is not open does not come back. -/
lemma get?_run (hid : id < r.nextId) (h : r.nextId + acts.countP Action.opens ≤ lastId) :
    (r.run acts).get? id = if acts.any (Action.closes id) then none
      else (r.get? id).map (·.performAll (ownOperations id acts)) := by
  induction acts generalizing r with
  | nil => exact Option.map_id'.symm
  | cons a acts ih =>
      rw [List.countP_cons] at h
      have hnext := nextId_act (r := r) (a := a) (by omega)
      have hrun := ih (r := r.act a) (by omega) (by omega)
      -- an id below the counter is not given out by `a`, so `a` acts on its tracker or closes it
      refine hrun.trans ?_
      rw [get?_act fun _ => hid.ne, List.any_cons, ownOperations_cons]
      cases a.closes id with
      | true => rw [if_pos rfl, Option.map_none, ite_self, Bool.true_or, if_pos rfl]
      | false =>
          rw [if_neg Bool.false_ne_true, Option.map_map, Bool.false_or]
          simp only [Function.comp_def, Tracker.performAll, List.foldl_append]

/-- A document that is open after a run was opened by it, or was open before, and has not been
closed since. -/
lemma exists_register_of_get?_run (hr : r.get? id = none) (h : (r.run acts).get? id = some t) :
    ∃ pre post, acts = pre ++ .register :: post ∧ (r.run pre).register.2 = id
      ∧ .close id ∉ post := by
  -- the last action decides, so the run is taken apart from its end
  induction acts using List.reverseRecOn generalizing t with
  | nil => exact absurd (hr.symm.trans h) (Option.some_ne_none t).symm
  | append_singleton acts a ih =>
      have hact : ((r.run acts).act a).get? id = some t := by rwa [run_append] at h
      by_cases hopen : a.opens = true ∧ id = (r.run acts).nextId
      · obtain ⟨ha, rfl⟩ := hopen
        cases a with
        | register => exact ⟨acts, [], rfl, rfl, List.not_mem_nil⟩
        | close | get | modify | setDefaultKinds | resetAll => exact absurd ha Bool.false_ne_true
      · rw [get?_act fun ha hid => hopen ⟨ha, hid⟩] at hact
        cases hclose : a.closes id with
        | true =>
            rw [hclose, if_pos rfl] at hact
            cases hact
        | false =>
            rw [hclose, if_neg Bool.false_ne_true] at hact
            obtain ⟨t', ht', -⟩ := Option.map_eq_some_iff.mp hact
            obtain ⟨pre, post, rfl, hid, hpost⟩ := ih ht'
            refine ⟨pre, post ++ [a], List.append_assoc .., hid, fun hmem => ?_⟩
            rcases List.mem_append.mp hmem with hmem | hmem
            · exact hpost hmem
            · obtain rfl := List.mem_singleton.mp hmem
              exact Bool.false_ne_true (hclose.symm.trans (decide_eq_true rfl))

/-! ### Isolation -/

section Isolation

variable {kinds : KindSet} {pre post : List Action}

/-- The tracker of a document that a run opens. -/
lemma get?_run_register (h : (pre ++ .register :: post).countP Action.opens < lastId) :
    ((new kinds).run (pre ++ .register :: post)).get? ((new kinds).run pre).register.2
      = if post.any (Action.closes ((new kinds).run pre).register.2) then none
        else some ((Tracker.new (kindsAfter kinds pre)).performAll
          (ownOperations ((new kinds).run pre).register.2 post)) := by
  rw [List.countP_append, List.countP_cons] at h
  have hfirst : (new kinds).nextId = 1 := rfl
  have hopens : Action.opens .register = true := rfl
  rw [hopens, if_pos rfl] at h
  have hpre : ((new kinds).run pre).nextId = (new kinds).nextId + pre.countP Action.opens :=
    nextId_run (by omega)
  have hnext := nextId_act (r := (new kinds).run pre) (a := .register)
    (by rw [hopens, if_pos rfl]; omega)
  rw [hopens, if_pos rfl] at hnext
  have hopened : (((new kinds).run pre).act .register).get? ((new kinds).run pre).register.2
      = some (.new (kindsAfter kinds pre)) := by
    refine (get?_register _ _).trans ((if_pos rfl).trans ?_)
    rw [defaultKinds_run]
    rfl
  have hid : ((new kinds).run pre).register.2 < (((new kinds).run pre).act .register).nextId := by
    rw [hnext]
    exact Nat.lt_succ_self _
  rw [run_append]
  refine (get?_run hid (by omega)).trans ?_
  rw [hopened, Option.map_some]

/-- **Isolation.**  Whatever is done with the open documents, short of opening all that there are
ids for, the ids are given out in ascending order.  The open documents are those that were opened
and have not been closed since, and are listed in that order.  Each of them is as if its own
operations had been done to a new tracker of the kinds that were asked for when it was opened.
This is what closing it gives, and from then on there is nothing at its id. -/
theorem isolated_run (kinds : KindSet) (acts : List Action)
    (hopens : acts.countP Action.opens < 2 ^ 64 - 1) :
    let r := (new kinds).run acts
    ((new kinds).given acts).Pairwise (· < ·)
    ∧ r.ids = ((new kinds).given acts).filter (fun id => (r.get? id).isSome)
    ∧ (∀ id, id ∈ r.ids ↔ ∃ pre post, acts = pre ++ .register :: post
        ∧ ((new kinds).run pre).register.2 = id ∧ .close id ∉ post)
    ∧ ∀ pre post, acts = pre ++ .register :: post →
        let id := ((new kinds).run pre).register.2
        let own := (Tracker.new (kindsAfter kinds pre)).performAll (ownOperations id post)
        (.close id ∉ post → r.get? id = some own ∧ (r.close id).2 = some own)
        ∧ (.close id ∈ post → r.get? id = none ∧ (r.close id).2 = none
            ∧ ∀ f, r.modify id f = r) := by
  intro r
  have hcount : acts.countP Action.opens < lastId := hopens
  have hfirst : (new kinds).nextId = 1 := rfl
  have hgiven : (new kinds).given acts = List.range' 1 (acts.countP Action.opens) :=
    given_eq_range' (by omega)
  have hascending : ((new kinds).given acts).Pairwise (· < ·) :=
    hgiven ▸ List.pairwise_lt_range'
  have hopened : ∀ id, id ∈ r.ids ↔ ∃ pre post, acts = pre ++ .register :: post
      ∧ ((new kinds).run pre).register.2 = id ∧ .close id ∉ post := by
    intro id
    refine NatMap.mem_keys.trans ⟨fun ⟨t, ht⟩ => exists_register_of_get?_run rfl ht, ?_⟩
    rintro ⟨pre, post, rfl, rfl, hpost⟩
    exact ⟨_, (get?_run_register hcount).trans (if_neg fun h => hpost (any_closes_iff.mp h))⟩
  refine ⟨hascending, ?_, hopened, ?_⟩
  · -- both lists ascend, so it is enough that they have the same members
    refine NatSet.eq_of_mem_iff id r.trackers.ascending (hascending.filter _) fun id => ?_
    rw [List.mem_filter, Option.isSome_iff_exists]
    refine NatMap.mem_keys.trans (and_iff_right_of_imp fun h => ?_).symm
    obtain ⟨pre, post, rfl, rfl, -⟩ := (hopened id).mp (NatMap.mem_keys.mpr h)
    rw [given_append]
    exact List.mem_append_right _ List.mem_cons_self
  · rintro pre post rfl id own
    have hget : r.get? id = if post.any (Action.closes id) then none else some own :=
      get?_run_register hcount
    refine ⟨fun hpost => ?_, fun hpost => ?_⟩
    · rw [if_neg fun h => hpost (any_closes_iff.mp h)] at hget
      exact ⟨hget, hget⟩
    · rw [if_pos (any_closes_iff.mpr hpost)] at hget
      exact ⟨hget, hget, fun f => by rw [modify, hget]⟩

/-- Two documents are opened with different kinds, the first is closed and then written to, and the
other is changed and reset. -/
def closedAndWritten : List Action :=
  [.register, .setDefaultKinds .all, .register, .modify 1 (.setEnabled .angle true), .close 1,
    .modify 1 .reset, .modify 2 (.setEnabled .square false), .resetAll]

/-- The first document stays closed, and the second one has a change and a reset behind it. -/
theorem isolated_closedAndWritten :
    closedAndWritten.countP Action.opens < 2 ^ 64 - 1
    ∧ let r := (new .standard).run closedAndWritten
      r.ids = [2] ∧ r.get? 1 = none
      ∧ r.get? 2 = some ((Tracker.new .all).performAll [.setEnabled .square false, .reset]) := by
  have h := isolated_run .standard closedAndWritten (by decide)
  refine ⟨by decide, h.2.1.trans (by decide), ?_, ?_⟩
  · exact ((h.2.2.2 [] _ rfl).2 (any_closes_iff.mp rfl)).1
  · exact ((h.2.2.2 [.register, .setDefaultKinds .all] _ rfl).1
      fun hmem => Bool.false_ne_true (any_closes_iff.mpr hmem)).1

end Isolation

end Registry

end RainbowBrackets
