import CallableMembers.Proofs.Types.Nesting
import Mathlib.Data.List.Forall2

/-!
# Marks — telling the wrappers of a type from its name

Three kinds of marks occur in a name: a star, an ampersand, and brackets around a row of commas.
No mark starts another one, so a name that goes on behind a known base can be taken apart in one
way only.  What a mark does not tell is whether brackets without a comma belong to a vector, to an
array of rank one or to an array of rank zero.
-/

namespace CallableMembers
namespace Types

/-! ## Kinds of marks -/

inductive Mark where
  | star
  | ampersand
  | brackets (commas : Nat)
  deriving DecidableEq, Repr

namespace Mark

def text : Mark → List Char
  | .star => ['*']
  | .ampersand => ['&']
  | .brackets commas => '[' :: (List.replicate commas ',' ++ [']'])

theorem text_ne_nil (m : Mark) : m.text ≠ [] := by
  cases m <;> exact List.cons_ne_nil _ _

/-- A row of commas ends where its bracket is closed. -/
theorem commas_append_inj {n n' : Nat} {rest rest' : List Char}
    (same : List.replicate n ',' ++ ']' :: rest = List.replicate n' ',' ++ ']' :: rest') :
    n = n' ∧ rest = rest' := by
  induction n generalizing n' with
  | zero =>
      cases n' with
      | zero => exact ⟨rfl, List.tail_eq_of_cons_eq same⟩
      | succ n' => exact absurd (List.head_eq_of_cons_eq same) (by decide)
  | succ n ih =>
      cases n' with
      | zero => exact absurd (List.head_eq_of_cons_eq same) (by decide)
      | succ n' =>
          have ⟨commas, behind⟩ := ih (List.tail_eq_of_cons_eq same)
          exact ⟨congrArg Nat.succ commas, behind⟩

/-- A mark can be read off the start of a text, whatever comes behind it. -/
theorem text_append_inj {m m' : Mark} {rest rest' : List Char}
    (same : m.text ++ rest = m'.text ++ rest') : m = m' ∧ rest = rest' := by
  -- Marks of different kinds differ in their first letter.
  cases m with
  | star =>
      cases m' with
      | star => exact ⟨rfl, List.tail_eq_of_cons_eq same⟩
      | _ => exact absurd (List.head_eq_of_cons_eq same) (by decide)
  | ampersand =>
      cases m' with
      | ampersand => exact ⟨rfl, List.tail_eq_of_cons_eq same⟩
      | _ => exact absurd (List.head_eq_of_cons_eq same) (by decide)
  | brackets n =>
      cases m' with
      | brackets n' =>
          simp only [text, List.cons_append, List.append_assoc, List.nil_append] at same
          have ⟨commas, behind⟩ := commas_append_inj (List.tail_eq_of_cons_eq same)
          exact ⟨congrArg brackets commas, behind⟩
      | _ => exact absurd (List.head_eq_of_cons_eq same) (by decide)

theorem flatMap_text_injective : Function.Injective fun ms : List Mark => ms.flatMap text := by
  intro ms ms' same
  induction ms generalizing ms' with
  | nil =>
      cases ms' with
      | nil => rfl
      | cons m' ms' => exact absurd (List.append_eq_nil_iff.1 same.symm).1 m'.text_ne_nil
  | cons m ms ih =>
      cases ms' with
      | nil => exact absurd (List.append_eq_nil_iff.1 same).1 m.text_ne_nil
      | cons m' ms' =>
          have ⟨first, behind⟩ := text_append_inj same
          rw [first, ih behind]

end Mark

/-! ## Wrappers that are written alike -/

namespace Wrapper

/-- An array of one dimension, as far as its name can tell. -/
inductive Single : Wrapper → Prop where
  | vector : Single .vector
  | rankOne : Single (.array 1)
  | rankZero : Single (.array 0)

/-- The same wrapper, arrays of one dimension being the same. -/
def Alike (w w' : Wrapper) : Prop :=
  w = w' ∨ (Single w ∧ Single w')

def mark : Wrapper → Mark
  | .pointer => .star
  | .byRef => .ampersand
  | .vector => .brackets 0
  | .array rank => .brackets (rank.toNat - 1)

theorem text_mark (w : Wrapper) : w.mark.text = w.marks := by
  cases w <;> rfl

theorem single_iff {w : Wrapper} : Single w ↔ w.mark = .brackets 0 := by
  constructor
  · intro single
    cases single <;> rfl
  · intro empty
    cases w with
    | pointer => cases empty
    | byRef => cases empty
    | vector => exact .vector
    | array rank =>
        -- The subtraction stops at zero, so two ranks leave no comma.
        have commas : rank.toNat - 1 = 0 := Mark.brackets.inj empty
        have low : rank = 0 ∨ rank = 1 := by
          simp only [← UInt32.toNat_inj, UInt32.toNat_zero, UInt32.toNat_one]
          omega
        rcases low with rfl | rfl
        · exact .rankZero
        · exact .rankOne

/-- A mark that is not an empty pair of brackets tells the wrapper exactly. -/
theorem eq_of_mark_eq {w w' : Wrapper} (same : w.mark = w'.mark) (several : ¬ Single w) :
    w = w' := by
  have several' : w.mark ≠ .brackets 0 := mt single_iff.2 several
  cases w with
  | pointer =>
      cases w' with
      | pointer => rfl
      | _ => cases same
  | byRef =>
      cases w' with
      | byRef => rfl
      | _ => cases same
  | vector => exact absurd rfl several'
  | array rank =>
      cases w' with
      | vector => exact absurd same several'
      | array rank' =>
          have commas : rank.toNat - 1 = rank'.toNat - 1 := Mark.brackets.inj same
          have some : rank.toNat - 1 ≠ 0 := fun none => several' (congrArg Mark.brackets none)
          have ranks : rank.toNat = rank'.toNat := by omega
          rw [UInt32.toNat_inj.1 ranks]
      | _ => cases same

theorem mark_eq_iff {w w' : Wrapper} : w.mark = w'.mark ↔ Alike w w' := by
  constructor
  · intro same
    by_cases single : Single w
    · exact .inr ⟨single, single_iff.2 (same ▸ single_iff.1 single)⟩
    · exact .inl (eq_of_mark_eq same single)
  · rintro (rfl | ⟨single, single'⟩)
    · rfl
    · rw [single_iff.1 single, single_iff.1 single']

/-- Rows of marks are equal exactly if the wrappers are alike, one by one. -/
theorem flatMap_marks_eq_iff {ws ws' : List Wrapper} :
    ws.flatMap marks = ws'.flatMap marks ↔ List.Forall₂ Alike ws ws' := by
  have written : ∀ ws : List Wrapper, ws.flatMap marks = (ws.map mark).flatMap Mark.text := by
    intro ws
    simp only [List.flatMap_map, text_mark]
  calc
    ws.flatMap marks = ws'.flatMap marks ↔ ws.map mark = ws'.map mark := by
      rw [written, written]
      exact Mark.flatMap_text_injective.eq_iff
    _ ↔ List.Forall₂ (fun w w' => w.mark = w'.mark) ws ws' := by
      rw [← List.forall₂_eq_eq_eq, List.forall₂_map_left_iff, List.forall₂_map_right_iff]
    _ ↔ List.Forall₂ Alike ws ws' := by
      simp only [mark_eq_iff]

/-! ## Flavors of wrappers that are written alike -/

/-- Not an array of rank zero. -/
def Ranked (w : Wrapper) : Prop :=
  ∀ rank, w = .array rank → 1 ≤ rank

theorem flavor_of_single {w : Wrapper} (single : Single w) (ranked : w.Ranked) :
    w.flavor = .array 1 := by
  cases single with
  | vector => rfl
  | rankOne => rfl
  | rankZero => exact absurd (ranked 0 rfl) (by decide)

theorem Alike.flavor_eq {w w' : Wrapper} (alike : Alike w w') (ranked : w.Ranked)
    (ranked' : w'.Ranked) : w.flavor = w'.flavor := by
  rcases alike with rfl | ⟨single, single'⟩
  · rfl
  · rw [flavor_of_single single ranked, flavor_of_single single' ranked']

theorem map_flavor_eq {ws ws' : List Wrapper} (alike : List.Forall₂ Alike ws ws')
    (ranked : ∀ w ∈ ws, w.Ranked) (ranked' : ∀ w ∈ ws', w.Ranked) :
    ws.map flavor = ws'.map flavor := by
  induction alike with
  | nil => rfl
  | cons first _ ih =>
      have ⟨here, behind⟩ := List.forall_mem_cons.1 ranked
      have ⟨here', behind'⟩ := List.forall_mem_cons.1 ranked'
      rw [List.map_cons, List.map_cons, first.flavor_eq here here', ih behind behind']

end Wrapper

/-! ## Names over one base -/

namespace TypeDesc

theorem fullName_wrap_eq_iff (base : TypeDesc) (layers layers' : List (ObjectId × Wrapper)) :
    (base.wrap layers).fullName = (base.wrap layers').fullName
      ↔ List.Forall₂ Wrapper.Alike (layers.map Prod.snd) (layers'.map Prod.snd) := by
  rw [fullName_wrap, fullName_wrap, String.append_right_inj, String.ofList_inj,
    Wrapper.flatMap_marks_eq_iff]

end TypeDesc
end Types
end CallableMembers
