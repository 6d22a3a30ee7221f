import RainbowBrackets.Proofs.Document.Report
import RainbowBrackets.Proofs.Document.Span
import RainbowBrackets.Proofs.Language.Walk

/-!
Where a document starts afresh.

Behind a character that is program text, the flags are those of the rest of the text on its own,
whatever is before.  So an edit before an opening bracket is of no consequence behind it as long as
the bracket stays program text, and an entry can move along with its bracket unseen.

* `Document.SameBehind`: two documents are the same from one position of each on, flags and partners
  included; `Document.sameBehind_of_drop`: it takes the same text and one flag of each;
* `Document.drop_text_insert`, `Document.drop_text_delete`: an edit leaves the text behind it;
* `Language.resynchronises` (**resynchronisation**): what starts afresh, for a walk, for two texts
  and for a document that is edited.
-/

namespace RainbowBrackets

open RainbowBrackets.Language

namespace Document

variable {d d' : Document} {p p' q n : ℕ} {new : Text}

/-- From `p` in `d` and from `p'` in `d'` on, the flags are the same, and if there is an opening
bracket then it has its partner at the same distance in both, or in neither. -/
structure SameBehind (d d' : Document) (p p' : ℕ) : Prop where
  mask : d'.mask.drop p' = d.mask.drop p
  partner : ∀ k : Kind, d.text[p]? = some k.opener → ∃ distance : Option ℕ,
    d.partner p = distance.map (p + ·) ∧ d'.partner p' = distance.map (p' + ·)

/-- Two documents are the same behind a character of program text that the same text follows. -/
lemma sameBehind_of_drop (hd : d.Classified) (hd' : d'.Classified)
    (hlang : d'.language = d.language) (hp : d.mask[p]? = some true)
    (hp' : d'.mask[p']? = some true) (ht : d'.text.drop p' = d.text.drop p) :
    d.SameBehind d' p p' := by
  have hmask : d'.mask.drop p' = d.mask.drop p := by
    rw [hd] at hp ⊢
    rw [hd', hlang] at hp' ⊢
    exact codeMask_drop_eq hp hp' ht
  refine ⟨hmask, fun k hk => ?_⟩
  have hcells : d'.cells.drop p' = d.cells.drop p := by rw [drop_cells, drop_cells, ht, hmask]
  have hk' : d'.text[p']? = some k.opener := by rw [← hk, ← List.head?_drop, ht, List.head?_drop]
  have htail : d'.cells.drop (p' + 1) = d.cells.drop (p + 1) := by
    rw [← List.tail_drop, hcells, List.tail_drop]
  refine ⟨(stepsToMate k.opener k.closer 0 0 (d.cells.drop (p + 1))).map (1 + ·), ?_, ?_⟩
  · rw [partner_of_opener (getElem?_cells_eq_some_iff.mpr ⟨hk, hp⟩), Option.map_map]
    exact congrArg (Option.map · _) (funext fun m => Nat.add_assoc p 1 m)
  · rw [partner_of_opener (getElem?_cells_eq_some_iff.mpr ⟨hk', hp'⟩), htail, Option.map_map]
    exact congrArg (Option.map · _) (funext fun m => Nat.add_assoc p' 1 m)

/-- Inserting before a position leaves the text from it on. -/
lemma drop_text_insert (hq : q ≤ p) (hp : p < d.text.length) :
    (d.insert q new).1.text.drop (p + new.length) = d.text.drop p := by
  rw [insert]
  split_ifs with hnew
  · rw [hnew]
    rfl
  · have hmin : min q d.length = q := min_eq_left (by rw [length]; omega)
    have hlen : (d.text.take q ++ new).length = q + new.length := by
      rw [List.length_append, List.length_take_of_le (by omega)]
    rw [hmin]
    show (d.text.take q ++ new ++ d.text.drop q).drop (p + new.length) = d.text.drop p
    rw [show p + new.length = (d.text.take q ++ new).length + (p - q) from by omega,
      List.drop_length_add_append, List.drop_drop, Nat.add_sub_cancel' hq]

/-- Deleting before a position leaves the text from it on. -/
lemma drop_text_delete (hq : q + n ≤ p) (hp : p < d.text.length) :
    (d.delete q n).1.text.drop (p - n) = d.text.drop p := by
  have hmin : min q d.length = q := min_eq_left (by rw [length]; omega)
  have hmin' : min n (d.length - q) = n := min_eq_left (by rw [length]; omega)
  rw [delete]
  dsimp only
  rw [hmin, hmin']
  split_ifs with hzero
  · rw [hzero]
    rfl
  · have hlen : (d.text.take q).length = q := List.length_take_of_le (by omega)
    show (d.text.take q ++ d.text.drop (q + n)).drop (p - n) = d.text.drop p
    rw [show p - n = (d.text.take q).length + (p - n - q) from by omega,
      List.drop_length_add_append, List.drop_drop]
    congr 1
    omega

lemma language_insert : (d.insert q new).1.language = d.language := by
  rw [insert]
  split_ifs
  · rfl
  · rfl

lemma language_delete : (d.delete q n).1.language = d.language := by
  rw [delete]
  dsimp only
  split_ifs
  · rfl
  · rfl

end Document

/-- **Resynchronisation.**  A walk over a text keeps the flags that it has gone past, and it comes
by the position behind every character of program text, where it expects program text.  The flags
from there on are those of the rest of the text on its own.  So two texts that are the same from a
character of program text on, in both of them, have the same flags from there on.  Whatever has
become of a document, an insertion or a deletion before a character that is and stays program text
changes no flag behind it, and if the character is an opening bracket, not how far its partner is
away. -/
theorem Language.resynchronises (l : Language) :
    (∀ t s, Cursor.Walks l t (.start t) s → ∀ i < s.position, s.flags[i]? = (l.codeMask t)[i]?)
    ∧ (∀ t p, (l.codeMask t)[p]? = some true →
        (∃ s, Cursor.Walks l t (.start t) s ∧ s.inside = .code ∧ s.position = p + 1)
        ∧ (l.codeMask t).drop (p + 1) = l.codeMask (t.drop (p + 1)))
    ∧ (∀ t t' p p', (l.codeMask t)[p]? = some true → (l.codeMask t')[p']? = some true →
        t'.drop p' = t.drop p → (l.codeMask t').drop p' = (l.codeMask t).drop p)
    ∧ ∀ text ops, let d := (Document.ofText text l).performAll ops
      (∀ q new p, q ≤ p → d.mask[p]? = some true →
        (d.insert q new).1.mask[p + new.length]? = some true →
          d.SameBehind (d.insert q new).1 p (p + new.length))
      ∧ ∀ q n p, q + n ≤ p → d.mask[p]? = some true →
        (d.delete q n).1.mask[p - n]? = some true → d.SameBehind (d.delete q n).1 p (p - n) := by
  refine ⟨fun t s hs i hi => ((Cursor.sound_start l t).walks hs).getElem?_eq hi,
    fun t p h => ⟨(Cursor.sound_start l t).exists_walks (Nat.zero_le p) h, codeMask_drop_of_flag h⟩,
    fun t t' p p' h h' => codeMask_drop_eq h h', fun text ops => ?_⟩
  intro d
  have hd : d.Classified := (Document.classified_ofText text l).performAll ops
  have hlt : ∀ {p}, d.mask[p]? = some true → p < d.text.length := fun h =>
    hd.length_mask ▸ (List.getElem?_eq_some_iff.mp h).1
  refine ⟨fun q new p hq hp hp' => ?_, fun q n p hq hp hp' => ?_⟩
  · exact Document.sameBehind_of_drop hd (hd.performAll [.insert q new])
      Document.language_insert hp hp' (Document.drop_text_insert hq (hlt hp))
  · exact Document.sameBehind_of_drop hd (hd.performAll [.delete q n])
      Document.language_delete hp hp' (Document.drop_text_delete hq (hlt hp))

/-- A bracket before a literal with another one in it, behind a comment and without it, and in a
document where a block comment with a quote in it is put before the bracket, or a character taken
away. -/
theorem Language.resynchronises_quoted :
    let l := slashed ['\x22']
    let t : Text := "a(\x22(\x22)".toList
    let t' : Text := "\x22a\x22 //(\n(\x22(\x22)".toList
    let d := (Document.ofText t l).performAll [.insert 0 ['b']]
    (∃ s, Cursor.Walks l t (.start t) s ∧ s.inside = .code ∧ s.position = 2
      ∧ s.flags[1]? = some true)
    ∧ (l.codeMask t).drop 2 = l.codeMask (t.drop 2)
    ∧ (l.codeMask t').drop 8 = (l.codeMask t).drop 1
    ∧ d.SameBehind (d.insert 1 "/*\x22*/".toList).1 2 7
    ∧ d.SameBehind (d.delete 0 1).1 2 1
    ∧ d.partner 2 = some 6 := by
  intro l t t' d
  obtain ⟨hkept, hafter, htexts, hedits⟩ := resynchronises l
  obtain ⟨hinsert, hdelete⟩ := hedits t [.insert 0 ['b']]
  obtain ⟨⟨s, hwalk, hinside, hposition⟩, hdrop⟩ := hafter t 1 (by decide)
  have hflag : s.flags[1]? = some true := (hkept t s hwalk 1 (by omega)).trans (by decide)
  exact ⟨⟨s, hwalk, hinside, hposition, hflag⟩, hdrop,
    htexts t t' 1 8 (by decide) (by decide) (by decide),
    hinsert 1 "/*\x22*/".toList 2 (by decide) (by decide) (by decide),
    hdelete 0 1 2 (by decide) (by decide) (by decide), by decide⟩

end RainbowBrackets
