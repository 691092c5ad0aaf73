import CallableMembers.Proofs.Member.DraftHistory
import CallableMembers.Proofs.Text.NameList
import CallableMembers.Proofs.Types.Nesting
import Mathlib.Data.List.Forall2

/-!
# SignatureText — the names of the parameter types, read off a signature

The text of a signature separates the names of its parameter types by a comma and a space.  The
marks of arrays put commas into the names as well, but no mark has a space in it.  Where the names
of the base types can be told apart, the names of all types built on them can.
-/

namespace CallableMembers

namespace Types

open CallableMembers.Text

theorem Wrapper.space_notMem_marks (w : Wrapper) : ' ' ∉ w.marks := by
  cases w with
  | array rank => simp [marks]
  | _ => decide

namespace TypeDesc

/-- The full name is not empty and has no comma that is followed by a space. -/
def ListableName (t : TypeDesc) : Prop :=
  Listable t.fullName.toList

/-- Made by any number of wrappers around a type with such a name. -/
def BuiltOnListable (t : TypeDesc) : Prop :=
  ∃ (base : TypeDesc) (layers : List (ObjectId × Wrapper)),
    base.ListableName ∧ t = base.wrap layers

/-- Wrappers keep a name as good as it was. -/
theorem BuiltOnListable.listableName {t : TypeDesc} (built : t.BuiltOnListable) :
    t.ListableName := by
  rcases built with ⟨base, layers, listable, rfl⟩
  have spaceless : ' ' ∉ (layers.map Prod.snd).flatMap Wrapper.marks := by
    intro space
    rcases List.mem_flatMap.1 space with ⟨w, -, marked⟩
    exact w.space_notMem_marks marked
  have name : (base.wrap layers).fullName.toList
      = base.fullName.toList ++ (layers.map Prod.snd).flatMap Wrapper.marks := by
    rw [fullName_wrap, String.toList_append, String.toList_ofList]
  rw [ListableName, name]
  exact listable.append spaceless

end TypeDesc
end Types

namespace Member

open CallableMembers.Flags CallableMembers.Text CallableMembers.Types

/-! ## Texts of signatures -/

namespace Signature

/-- The letters of the names of the parameter types. -/
def typeNames (s : Signature) : List (List Char) :=
  s.parameters.map fun p => p.type.fullName.toList

theorem parameterText_eq_iff (s s' : Signature) :
    s.parameterText = s'.parameterText
      ↔ separator.intercalate s.typeNames = separator.intercalate s'.typeNames := by
  have letters : (", " : String).toList = separator := rfl
  rw [parameterText, parameterText, String.append_left_inj, String.append_right_inj,
    ← String.toList_inj, String.toList_intercalate, String.toList_intercalate, letters,
    List.map_map, List.map_map]
  rfl

theorem typeNames_eq_iff (s s' : Signature) :
    s.typeNames = s'.typeNames
      ↔ List.Forall₂ (fun p p' => p.type.fullName = p'.type.fullName)
          s.parameters s'.parameters := by
  rw [typeNames, typeNames, ← List.forall₂_eq_eq_eq, List.forall₂_map_left_iff,
    List.forall₂_map_right_iff]
  simp only [String.toList_inj]

theorem listable_of_mem_typeNames {s : Signature}
    (built : ∀ p ∈ s.parameters, p.type.BuiltOnListable) : ∀ name ∈ s.typeNames, Listable name := by
  intro name member
  rcases List.mem_map.1 member with ⟨p, listed, rfl⟩
  exact (built p listed).listableName

end Signature

/-! ## Texts of frozen members -/

namespace Draft

variable {id id' : ObjectId} {token token' : Token} {name name' : String}
  {attributes attributes' : Attributes} {parameters parameters' : List Parameter}
  {calls calls' : List Call} {m m' : Method}

/-- Two members were frozen, whatever happened to their drafts, and their parameter types are
built on types whose full names are not empty and have no comma that is followed by a space.  The
texts of their signatures are equal exactly if they have equally many parameters and the full
names of the types agree one by one. -/
theorem parameter_texts_agree
    (made : (((start token name attributes parameters).after calls).freeze id).outcome = .ok m)
    (made' :
      (((start token' name' attributes' parameters').after calls').freeze id').outcome = .ok m')
    (built : ∀ p ∈ parameters, p.type.BuiltOnListable)
    (built' : ∀ p ∈ parameters', p.type.BuiltOnListable) :
    m.signature.parameterText = m'.signature.parameterText
      ↔ List.Forall₂ (fun p p' => p.type.fullName = p'.type.fullName) m.parameters m'.parameters := by
  have own : ∀ p ∈ m.signature.parameters, p.type.BuiltOnListable := by
    rw [signature_of_freeze made]
    exact built
  have own' : ∀ p ∈ m'.signature.parameters, p.type.BuiltOnListable := by
    rw [signature_of_freeze made']
    exact built'
  calc
    m.signature.parameterText = m'.signature.parameterText
        ↔ separator.intercalate m.signature.typeNames
          = separator.intercalate m'.signature.typeNames :=
      m.signature.parameterText_eq_iff m'.signature
    _ ↔ m.signature.typeNames = m'.signature.typeNames := by
      constructor
      · exact intercalate_inj (Signature.listable_of_mem_typeNames own)
          (Signature.listable_of_mem_typeNames own')
      · exact congrArg separator.intercalate
    _ ↔ List.Forall₂ (fun p p' => p.type.fullName = p'.type.fullName)
          m.parameters m'.parameters :=
      m.signature.typeNames_eq_iff m'.signature

/-- The base name ends in a comma, and the array puts another one behind it.  Other objects of the
same names give the same text, and the same objects in another order do not. -/
theorem parameter_texts_agree_of_commas :
    let a : TypeDesc := .named 0 .null .classType "" "A,"
    let b : TypeDesc := .named 5 .null .valueType "" "A,"
    let p : Parameter := ⟨2, .null, 0, 0, none, .constructed 1 (.array 2) a⟩
    let q : Parameter := ⟨4, .null, 0, 1, some "x", .constructed 3 .byRef a⟩
    let p' : Parameter := ⟨7, .null, 1, 9, none, .constructed 6 (.array 2) b⟩
    let q' : Parameter := ⟨9, .null, 0, 0, none, .constructed 8 .byRef b⟩
    ∃ m m' m'' : Method,
      (((start ⟨0x06000001⟩ "M" ⟨6⟩ [p, q]).after []).freeze 10).outcome = .ok m
        ∧ (((start ⟨0x06000002⟩ "N" ⟨6⟩ [p', q']).after [.peek]).freeze 11).outcome = .ok m'
        ∧ (((start ⟨0x06000001⟩ "M" ⟨6⟩ [q, p]).after []).freeze 12).outcome = .ok m''
        ∧ a.ListableName ∧ b.ListableName
        ∧ m.signature.parameterText = m'.signature.parameterText
        ∧ m.signature.parameterText ≠ m''.signature.parameterText := by
  intro a b p q p' q'
  let m : Method := ((start ⟨0x06000001⟩ "M" ⟨6⟩ [p, q]).after []).toMethod 10 []
  let m' : Method := ((start ⟨0x06000002⟩ "N" ⟨6⟩ [p', q']).after [.peek]).toMethod 11 []
  let m'' : Method := ((start ⟨0x06000001⟩ "M" ⟨6⟩ [q, p]).after []).toMethod 12 []
  have made : (((start ⟨0x06000001⟩ "M" ⟨6⟩ [p, q]).after []).freeze 10).outcome = .ok m := by
    rw [outcome_freeze, if_pos (by decide)]
    rfl
  have made' :
      (((start ⟨0x06000002⟩ "N" ⟨6⟩ [p', q']).after [.peek]).freeze 11).outcome = .ok m' := by
    rw [outcome_freeze, if_pos (by decide)]
    rfl
  have made'' : (((start ⟨0x06000001⟩ "M" ⟨6⟩ [q, p]).after []).freeze 12).outcome = .ok m'' := by
    rw [outcome_freeze, if_pos (by decide)]
    rfl
  have listable : a.ListableName := ⟨by decide, by decide⟩
  have listable' : b.ListableName := ⟨by decide, by decide⟩
  have builtP : p.type.BuiltOnListable := ⟨a, [(1, .array 2)], listable, rfl⟩
  have builtQ : q.type.BuiltOnListable := ⟨a, [(3, .byRef)], listable, rfl⟩
  have builtP' : p'.type.BuiltOnListable := ⟨b, [(6, .array 2)], listable', rfl⟩
  have builtQ' : q'.type.BuiltOnListable := ⟨b, [(8, .byRef)], listable', rfl⟩
  have built : ∀ r ∈ [p, q], r.type.BuiltOnListable := by
    simp [builtP, builtQ]
  have built' : ∀ r ∈ [p', q'], r.type.BuiltOnListable := by
    simp [builtP', builtQ']
  have built'' : ∀ r ∈ [q, p], r.type.BuiltOnListable := by
    simp [builtP, builtQ]
  refine ⟨m, m', m'', made, made', made'', listable, listable', ?_, ?_⟩
  · exact (parameter_texts_agree made made' built built').2 (.cons rfl (.cons rfl .nil))
  · intro same
    cases (parameter_texts_agree made made'' built built'').1 same with
    | cons first _ => exact absurd first (by decide)

end Draft
end Member
end CallableMembers
