import CallableMembers.Types.Descriptor

/-!
# Nesting — wrappers around a type

A list of wrappers is put around a type one after the other, each under an identity of its own.
Every stage on the way is a type: its name is that of the base followed by the marks of the
wrappers so far, and going down its elements leads through the stages before it, the last one
first, and ends at the base.
-/

namespace CallableMembers
namespace Types

/-! ## Marks -/

namespace Wrapper

/-- How the suffix is written: an array has a comma between any two of its dimensions. -/
def marks : Wrapper → List Char
  | .pointer => ['*']
  | .byRef => ['&']
  | .vector => ['[', ']']
  | .array rank => '[' :: (List.replicate (rank.toNat - 1) ',' ++ [']'])

theorem toList_pushn (text : String) (c : Char) (n : Nat) :
    (text.pushn c n).toList = text.toList ++ List.replicate n c := by
  induction n with
  | zero => exact (List.append_nil _).symm
  | succ n ih =>
      calc
        (text.pushn c (n + 1)).toList = (text.pushn c n).toList ++ [c] := String.toList_push ..
        _ = text.toList ++ List.replicate (n + 1) c := by
          rw [ih, List.append_assoc, List.replicate_succ']

theorem suffix_eq (w : Wrapper) : w.suffix = String.ofList w.marks := by
  cases w with
  | array rank => simp [← String.toList_inj, suffix, marks, toList_pushn]
  | _ => rfl

end Wrapper

namespace TypeDesc

/-! ## Stages -/

/-- The types made by putting the wrappers around a type, from the inside out. -/
def stages (base : TypeDesc) : List (ObjectId × Wrapper) → List TypeDesc
  | [] => []
  | (id, w) :: outer => .constructed id w base :: stages (.constructed id w base) outer

/-- The outermost type; without wrappers it is the base itself. -/
def wrap (base : TypeDesc) : List (ObjectId × Wrapper) → TypeDesc
  | [] => base
  | (id, w) :: outer => wrap (.constructed id w base) outer

variable (base : TypeDesc) (layers : List (ObjectId × Wrapper))

theorem map_id_stages : (base.stages layers).map id = layers.map Prod.fst := by
  induction layers generalizing base with
  | nil => rfl
  | cons layer outer ih => simp [stages, ih, id]

theorem map_flavor_stages :
    (base.stages layers).map flavor = (layers.map Prod.snd).map Wrapper.flavor := by
  induction layers generalizing base with
  | nil => rfl
  | cons layer outer ih => simp [stages, ih, flavor]

/-- Only the base may have a token. -/
theorem token_wrap : (base.wrap layers).token = if layers = [] then base.token else .null := by
  induction layers generalizing base with
  | nil => rfl
  | cons layer outer ih =>
      have inner : (constructed layer.1 layer.2 base).token = .null := rfl
      rw [wrap, ih, inner, ite_self, if_neg (by simp)]

/-! ## Names -/

theorem namespaceName_wrap : (base.wrap layers).namespaceName = base.namespaceName := by
  induction layers generalizing base with
  | nil => rfl
  | cons layer outer ih => simp [wrap, ih, namespaceName]

theorem name_wrap :
    (base.wrap layers).name
      = base.name ++ String.ofList ((layers.map Prod.snd).flatMap Wrapper.marks) := by
  induction layers generalizing base with
  | nil => simp [wrap]
  | cons layer outer ih =>
      let inner : TypeDesc := .constructed layer.1 layer.2 base
      calc
        (base.wrap (layer :: outer)).name = (inner.wrap outer).name := rfl
        _ = (base.name ++ layer.2.suffix)
              ++ String.ofList ((outer.map Prod.snd).flatMap Wrapper.marks) := ih inner
        _ = base.name
              ++ String.ofList (((layer :: outer).map Prod.snd).flatMap Wrapper.marks) := by
          simp [Wrapper.suffix_eq, String.append_assoc, ← String.ofList_append]

/-- The suffixes stand at the end, whether or not a namespace stands in front. -/
theorem fullName_wrap :
    (base.wrap layers).fullName
      = base.fullName ++ String.ofList ((layers.map Prod.snd).flatMap Wrapper.marks) := by
  unfold fullName
  rw [namespaceName_wrap, name_wrap]
  split
  · rfl
  · simp only [String.append_assoc]

theorem display_eq_fullName (t : TypeDesc) : t.display = t.fullName := rfl

/-! ## Going down the elements -/

/-- Going from element to element passes the listed types, the first one first, and arrives at the
last one, which is not listed. -/
inductive Descends : TypeDesc → List TypeDesc → TypeDesc → Prop where
  | here (t : TypeDesc) : Descends t [] t
  | step {t inner bottom : TypeDesc} {passed : List TypeDesc} :
      t.element? = some inner → Descends inner passed bottom → Descends t (t :: passed) bottom

/-- One more step at the bottom. -/
theorem Descends.concat {t outer inner : TypeDesc} {passed : List TypeDesc}
    (descends : Descends t passed outer) (last : outer.element? = some inner) :
    Descends t (passed ++ [outer]) inner := by
  induction descends with
  | here t => exact .step last (.here inner)
  | step first _ ih => exact .step first (ih last)

theorem descends_wrap : Descends (base.wrap layers) (base.stages layers).reverse base := by
  induction layers generalizing base with
  | nil => exact .here base
  | cons layer outer ih =>
      -- The walk from the outermost type to the first stage goes on to the base.
      have walk := ih (.constructed layer.1 layer.2 base)
      have last : (constructed layer.1 layer.2 base).element? = some base := rfl
      simpa only [wrap, stages, List.reverse_cons] using walk.concat last

/-- The flavors on the way down are those of the passed types, and then those of the bottom. -/
theorem Descends.flavorChain_eq {t bottom : TypeDesc} {passed : List TypeDesc}
    (descends : Descends t passed bottom) :
    t.flavorChain = passed.map flavor ++ bottom.flavorChain := by
  induction descends with
  | here t => rfl
  | @step t _ _ _ first _ ih =>
      cases t with
      | named id token flavor namespaceName name => cases first
      | constructed id wrapper element =>
          cases first
          exact congrArg (wrapper.flavor :: ·) ih

theorem flavorChain_wrap (base : TypeDesc) (layers : List (ObjectId × Wrapper)) :
    (base.wrap layers).flavorChain
      = ((layers.map Prod.snd).map Wrapper.flavor).reverse ++ base.flavorChain := by
  rw [(base.descends_wrap layers).flavorChain_eq, List.map_reverse, map_flavor_stages]

end TypeDesc
end Types
end CallableMembers
