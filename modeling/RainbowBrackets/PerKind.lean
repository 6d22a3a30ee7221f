import RainbowBrackets.Kind

/-!
# One value for each kind

* `PerKind α`: four values of one type, one for each bracket kind, read by `PerKind.get` and
  written by `PerKind.set`; `get_set` is the law that ties the two together;
* `KindSet`: a set of kinds, as one flag for each; `KindSet.standard` holds every kind but the
  angle brackets, which are comparison signs in most languages.
-/

namespace RainbowBrackets

/-- One value for each bracket kind. -/
@[ext] structure PerKind (α : Type) where
  paren : α
  square : α
  brace : α
  angle : α
  deriving DecidableEq, Repr

namespace PerKind

variable {α β : Type}

/-- The same value for every kind. -/
def const (a : α) : PerKind α := ⟨a, a, a, a⟩

/-- The value of kind `k`. -/
def get (v : PerKind α) : Kind → α
  | .paren => v.paren
  | .square => v.square
  | .brace => v.brace
  | .angle => v.angle

/-- Puts `a` in the place of kind `k`. -/
def set (v : PerKind α) (k : Kind) (a : α) : PerKind α :=
  match k with
  | .paren => { v with paren := a }
  | .square => { v with square := a }
  | .brace => { v with brace := a }
  | .angle => { v with angle := a }

/-- The values in the order of the kinds. -/
def toList (v : PerKind α) : List α := Kind.all.map v.get

@[simp] theorem get_const (a : α) (k : Kind) : (const a).get k = a := by cases k <;> rfl

/-- Writing at one kind changes that kind and no other. -/
theorem get_set (v : PerKind α) (k l : Kind) (a : α) :
    (v.set k a).get l = if l = k then a else v.get l := by
  cases k <;> cases l <;> rfl

@[simp] theorem get_set_self (v : PerKind α) (k : Kind) (a : α) : (v.set k a).get k = a := by
  simp [get_set]

theorem get_set_of_ne (v : PerKind α) {k l : Kind} (a : α) (h : l ≠ k) :
    (v.set k a).get l = v.get l := by
  simp [get_set, h]

theorem ext_get {v w : PerKind α} (h : ∀ k, v.get k = w.get k) : v = w :=
  PerKind.ext (h .paren) (h .square) (h .brace) (h .angle)

end PerKind

/-- A set of bracket kinds. -/
abbrev KindSet := PerKind Bool

namespace KindSet

/-- The set of no kind. -/
def none : KindSet := PerKind.const false

/-- The set of every kind. -/
def all : KindSet := PerKind.const true

/-- The kinds that are tracked unless something else is asked for: all but angle brackets. -/
def standard : KindSet := ⟨true, true, true, false⟩

/-- The kinds of the set, in the order of the kinds. -/
def kinds (s : KindSet) : List Kind := Kind.all.filter s.get

@[simp] theorem mem_kinds {s : KindSet} {k : Kind} : k ∈ s.kinds ↔ s.get k = true := by
  simp [kinds]

/-- Writing at a kind of the set changes nothing at a kind that is not in it. -/
theorem get_set_of_get {α : Type} {s : KindSet} {k l : Kind} (hk : s.get k = true)
    (hl : s.get l = false) (v : PerKind α) (a : α) : (v.set k a).get l = v.get l := by
  refine PerKind.get_set_of_ne v a ?_
  rintro rfl
  exact Bool.false_ne_true (hl.symm.trans hk)

theorem nodup_kinds (s : KindSet) : s.kinds.Nodup :=
  List.Pairwise.filter _ (by decide)

end KindSet

end RainbowBrackets
