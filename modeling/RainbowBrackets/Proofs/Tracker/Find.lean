import RainbowBrackets.Proofs.Tracker.Look

/-!
What looking at one position does, on any host.

A host may answer as it likes, and there are still only three things that can come of looking at
a position: nothing, an entry that is written, or an entry that is removed.

* `Tracker.Found`: the three, by what is found; `Tracker.found_rescan`, `Tracker.found_step?`:
  there are no more;
* `Tracker.Found.entryAt?_cases`, `Tracker.Found.mem_redraw`, `Tracker.Found.untracked`: what
  becomes of a single entry, of the repaints, and of the kinds that are not tracked.
-/

namespace RainbowBrackets

variable {t u : Tracker} {host : Host} {found : Finding} {k : Kind} {p s : ℕ}

namespace Tracker

/-- What looking at `p` does to a tracker `t`, by what is found there: `u`. -/
inductive Found (host : Host) (p : ℕ) (t u : Tracker) : Finding → Prop
  | nothing (hidx : u.indices = t.indices) (hred : u.queues.redraw = t.queues.redraw) :
      Found host p t u .nothing
  | recorded {k : Kind} {c : Char} {key : ℕ} {length : Option ℕ}
      (hb : t.bracketAt? host p = some (k, c)) (hcode : host.isCode p = true)
      (hpair : pairAt host k p c = some (key, length))
      (hidx : u.indices = t.indices.set k ((t.indices.get k).update key length))
      (hred : u.queues.redraw = t.queues.redraw.insert key) :
      Found host p t u (.recorded key)
  | cleared {k : Kind} {c : Char}
      (hb : t.bracketAt? host p = some (k, c)) (hcode : host.isCode p = false)
      (hidx : u.indices = t.indices.set k ((t.indices.get k).erase p))
      (hred : u.queues.redraw = t.queues.redraw) :
      Found host p t u (.cleared p)

lemma found_rescan (host : Host) (p : ℕ) (t : Tracker) :
    Found host p t (t.rescan host p).1 (t.rescan host p).2 := by
  unfold rescan
  split
  · exact .nothing rfl rfl
  · rename_i k c hb
    split
    · rename_i hcode
      split
      · exact .nothing rfl rfl
      · rename_i key length hpair
        exact .recorded hb hcode hpair rfl rfl
    · rename_i hcode
      exact .cleared hb (Bool.not_eq_true _ ▸ hcode) rfl rfl

/-- A step looks at a position, and keeps the tracked kinds. -/
lemma found_step? (h : t.step? host = some (u, found)) :
    u.enabled = t.enabled ∧ ∃ p, Found host p t u found := by
  rw [step?] at h
  split at h
  · cases h
  · rename_i p rest hpop
    set w : Tracker := { t with queues := { t.queues with recompute := rest } }
    have hstep : w.rescan host p = (u, found) := Option.some_inj.mp h
    have hfound := found_rescan host p w
    have henabled : (w.rescan host p).1.enabled = t.enabled := enabled_rescan
    rw [hstep] at hfound henabled
    refine ⟨henabled, p, ?_⟩
    cases hfound with
    | nothing hidx hred => exact .nothing hidx hred
    | recorded hb hcode hpair hidx hred => exact .recorded hb hcode hpair hidx hred
    | cleared hb hcode hidx hred => exact .cleared hb hcode hidx hred

/-- Looking at a position leaves an entry alone, or writes it, or removes it. -/
lemma Found.entryAt?_cases (h : Found host p t u found) (k : Kind) (s : ℕ) :
    u.entryAt? k s = t.entryAt? k s
      ∨ (found = .recorded s ∧ ∃ y, u.entryAt? k s = some y)
      ∨ (found = .cleared s ∧ u.entryAt? k s = none) := by
  cases h with
  | nothing hidx hred => exact .inl (by rw [entryAt?, hidx, ← entryAt?])
  | @recorded j c key length hb hcode hpair hidx hred =>
      rw [entryAt?_of_update hidx]
      by_cases hkey : k = j ∧ s = key
      · rw [if_pos hkey, hkey.2]
        exact .inr (.inl ⟨rfl, _, rfl⟩)
      · exact .inl (if_neg hkey)
  | @cleared j c hb hcode hidx hred =>
      rw [entryAt?_of_erase hidx]
      by_cases hkey : k = j ∧ s = p
      · rw [if_pos hkey, hkey.2]
        exact .inr (.inr ⟨rfl, rfl⟩)
      · exact .inl (if_neg hkey)

lemma Found.mem_redraw (h : Found host p t u found) :
    s ∈ u.queues.redraw ↔ s ∈ t.queues.redraw ∨ found = .recorded s := by
  cases h with
  | nothing hidx hred => simp [hred]
  | recorded hb hcode hpair hidx hred => simp [hred, or_comm, eq_comm]
  | cleared hb hcode hidx hred => simp [hred]

/-- Looking at a position leaves the kinds alone that are not tracked. -/
lemma Found.untracked (h : Found host p t u found) (hk : t.enabled.get k = false) :
    u.indices.get k = t.indices.get k := by
  cases h with
  | nothing hidx hred => rw [hidx]
  | recorded hb hcode hpair hidx hred =>
      rw [hidx, KindSet.get_set_of_get (bracketAt?_eq_some_iff.mp hb).2.2 hk]
  | cleared hb hcode hidx hred =>
      rw [hidx, KindSet.get_set_of_get (bracketAt?_eq_some_iff.mp hb).2.2 hk]

end Tracker

end RainbowBrackets
