import CallableMembers.Proofs.Member.DraftHistory
import CallableMembers.Proofs.Types.Shape

/-!
# EmissionGate — which members an emitter cannot refer to

A type is flagged for the sake of its two outermost layers: a pointer, or a reference to an array,
to a generic instance or to the usage of a generic parameter.  The gate of a frozen member reports
exactly whether one of its parameter types is flagged, or the return type that was set last.
-/

namespace CallableMembers

namespace Types
namespace Shape

/-! ## Flagged shapes -/

/-- Flagged, said of the layers of a type. -/
inductive Flagged : Shape → Prop where
  | pointerBase : Flagged ⟨.pointer, []⟩
  | pointer (base : Flavor) (below : List Wrapper) : Flagged ⟨base, .pointer :: below⟩
  | byRefVector (base : Flavor) (below : List Wrapper) : Flagged ⟨base, .byRef :: .vector :: below⟩
  | byRefArray (base : Flavor) (rank : UInt32) (below : List Wrapper) :
      Flagged ⟨base, .byRef :: .array rank :: below⟩
  | byRefArrayBase (rank : UInt32) : Flagged ⟨.array rank, [.byRef]⟩
  | byRefInstanceBase : Flagged ⟨.genericInstance, [.byRef]⟩
  | byRefParameterBase (index : UInt32) (ofMethod : Bool) :
      Flagged ⟨.genericParameter index ofMethod, [.byRef]⟩

variable {base : Flavor} {wrapper : Wrapper} {below : List Wrapper}

theorem flagged_base_iff : Flagged ⟨base, []⟩ ↔ base = .pointer := by
  constructor
  · intro flagged
    cases flagged
    rfl
  · rintro rfl
    exact .pointerBase

theorem flagged_byRef_base_iff : Flagged ⟨base, [.byRef]⟩ ↔ base.isAddressable = false := by
  constructor
  · intro flagged
    cases flagged <;> rfl
  · intro unaddressable
    cases base with
    | array rank => exact .byRefArrayBase rank
    | genericInstance => exact .byRefInstanceBase
    | genericParameter index ofMethod => exact .byRefParameterBase index ofMethod
    | _ => cases unaddressable

/-- Behind a reference only the flavor of the layer below counts. -/
theorem flagged_byRef_cons_iff :
    Flagged ⟨base, .byRef :: wrapper :: below⟩ ↔ wrapper.flavor.isAddressable = false := by
  constructor
  · intro flagged
    cases flagged <;> rfl
  · intro unaddressable
    cases wrapper with
    | vector => exact .byRefVector base below
    | array rank => exact .byRefArray base rank below
    | pointer => cases unaddressable
    | byRef => cases unaddressable

theorem not_flagged_vector : ¬ Flagged ⟨base, .vector :: below⟩ := by
  intro flagged
  cases flagged

theorem not_flagged_array {rank : UInt32} : ¬ Flagged ⟨base, .array rank :: below⟩ := by
  intro flagged
  cases flagged

end Shape
end Types

namespace Member

open CallableMembers.Flags CallableMembers.Generics CallableMembers.Types

/-! ## The gate on one type -/

theorem blocksEmission_named (id : ObjectId) (token : Token) (flavor : Flavor)
    (namespaceName name : String) :
    blocksEmission (.named id token flavor namespaceName name) = (flavor == .pointer) := by
  by_cases pointer : flavor = .pointer
  · simp [blocksEmission, TypeDesc.isPointer, TypeDesc.flavor, pointer]
  · simp [blocksEmission, TypeDesc.isPointer, TypeDesc.flavor, TypeDesc.element?, pointer]

theorem blocksEmission_byRef (id : ObjectId) (element : TypeDesc) :
    blocksEmission (.constructed id .byRef element) = !element.isAddressable := rfl

/-- The gate is exact on every type, however deep it is nested. -/
theorem blocksEmission_iff_flagged (t : TypeDesc) : blocksEmission t = true ↔ t.shape.Flagged := by
  cases t with
  | named id token flavor namespaceName name =>
      rw [blocksEmission_named, beq_iff_eq]
      exact Shape.flagged_base_iff.symm
  | constructed id wrapper element =>
      cases wrapper with
      | pointer => exact iff_of_true rfl (.pointer _ _)
      | vector => exact iff_of_false Bool.false_ne_true Shape.not_flagged_vector
      | array rank => exact iff_of_false Bool.false_ne_true Shape.not_flagged_array
      | byRef =>
          rw [blocksEmission_byRef, Bool.not_eq_true']
          -- The layer below is a named type or another wrapper; either shows its flavor.
          cases element with
          | named id' token flavor namespaceName name => exact Shape.flagged_byRef_base_iff.symm
          | constructed id' wrapper inner => exact Shape.flagged_byRef_cons_iff.symm

/-- The flavors of the two outermost layers; a named type without wrappers has one. -/
def outerLayers (t : TypeDesc) : List Flavor :=
  t.flavorChain.take 2

def blocksLayers : List Flavor → Bool
  | .pointer :: _ => true
  | [.byRef, below] => !below.isAddressable
  | _ => false

/-- Nothing below the second layer has a say. -/
theorem blocksEmission_eq (t : TypeDesc) : blocksEmission t = blocksLayers (outerLayers t) := by
  cases t with
  | named id token flavor namespaceName name =>
      rw [blocksEmission_named]
      cases flavor <;> rfl
  | constructed id wrapper element =>
      cases wrapper with
      | byRef => cases element <;> rfl
      | _ => rfl

/-! ## The gate on a signature -/

theorem hasBlockedParameter_iff (s : Signature) :
    s.hasBlockedParameter = true ↔ ∃ p ∈ s.parameters, p.type.shape.Flagged := by
  simp only [Signature.hasBlockedParameter, List.any_eq_true, blocksEmission_iff_flagged]

theorem isBlocked_iff (s : Signature) :
    s.isBlocked = true
      ↔ (∃ p ∈ s.parameters, p.type.shape.Flagged)
        ∨ ∃ t, s.role.returnType? = some t ∧ t.shape.Flagged := by
  rw [Signature.isBlocked, Bool.or_eq_true, hasBlockedParameter_iff, or_comm]
  simp only [Option.any_eq_true, blocksEmission_iff_flagged]

/-- The same outermost layers occur among the types of the parameters, in whatever order, as often
as may be, and whatever the parameters are otherwise. -/
def SameOuterLayers (ps ps' : List Parameter) : Prop :=
  ∀ layers, (∃ p ∈ ps, outerLayers p.type = layers) ↔ ∃ p ∈ ps', outerLayers p.type = layers

theorem hasBlockedParameter_eq_of_layers {s s' : Signature}
    (same : SameOuterLayers s.parameters s'.parameters) :
    s.hasBlockedParameter = s'.hasBlockedParameter := by
  have carry : ∀ {ps ps' : List Parameter},
      (∀ layers, (∃ p ∈ ps, outerLayers p.type = layers)
        → ∃ p ∈ ps', outerLayers p.type = layers) →
      (ps.any fun p => blocksEmission p.type) = true →
      (ps'.any fun p => blocksEmission p.type) = true := by
    intro ps ps' found blocked
    rcases List.any_eq_true.1 blocked with ⟨p, member, flagged⟩
    rcases found _ ⟨p, member, rfl⟩ with ⟨p', member', layers⟩
    refine List.any_eq_true.2 ⟨p', member', ?_⟩
    rwa [blocksEmission_eq, layers, ← blocksEmission_eq]
  exact Bool.eq_iff_iff.2
    ⟨carry fun layers => (same layers).1, carry fun layers => (same layers).2⟩

theorem isBlocked_eq_of_layers {s s' : Signature}
    (same : SameOuterLayers s.parameters s'.parameters)
    (returned : s.role.returnType?.map outerLayers = s'.role.returnType?.map outerLayers) :
    s.isBlocked = s'.isBlocked := by
  have gate : ∀ t? : Option TypeDesc,
      t?.any blocksEmission = (t?.map outerLayers).any blocksLayers := by
    intro t?
    cases t? with
    | none => rfl
    | some t => exact blocksEmission_eq t
  rw [Signature.isBlocked, Signature.isBlocked, hasBlockedParameter_eq_of_layers same, gate, gate,
    returned]

namespace Draft

/-! ## The gate of a frozen member -/

/-- The return type of a history is the one set last, unless a change to a constructor came
after it. -/
theorem returnType?_settings_iff {calls : List Call} {t : TypeDesc} :
    (settings calls).role.returnType? = some t
      ↔ lastOf Call.role? calls = some (.method (some t)) := by
  simp only [settings]
  cases last : lastOf Call.role? calls with
  | none => simp [Role.returnType?]
  | some role =>
      cases role with
      | constructor => simp [Role.returnType?]
      | method returnType? => simp [Role.returnType?]

/-- However the types of a frozen member are nested, the gate on its parameters reports exactly
whether a parameter type is flagged, and the gate on the whole member whether one is or the kind
of the member was last set to a method returning a flagged type.  Members that show the same
outermost layers answer alike. -/
theorem gate_of_frozen (id : ObjectId) (token : Token) (name : String) (attributes : Attributes)
    (parameters : List Parameter) (calls : List Call) {m : Method}
    (made : (((start token name attributes parameters).after calls).freeze id).outcome = .ok m) :
    (m.signature.hasBlockedParameter = true ↔ ∃ p ∈ parameters, p.type.shape.Flagged)
      ∧ (m.signature.isBlocked = true
          ↔ (∃ p ∈ parameters, p.type.shape.Flagged)
            ∨ ∃ t, lastOf Call.role? calls = some (.method (some t)) ∧ t.shape.Flagged)
      ∧ ∀ other : Method, SameOuterLayers parameters other.parameters →
          other.signature.hasBlockedParameter = m.signature.hasBlockedParameter
            ∧ (m.returnType?.map outerLayers = other.returnType?.map outerLayers →
                other.signature.isBlocked = m.signature.isBlocked) := by
  have signature : m.signature = ⟨parameters, (settings calls).role⟩ := signature_of_freeze made
  refine ⟨?_, ?_, ?_⟩
  · rw [hasBlockedParameter_iff, signature]
  · rw [isBlocked_iff, signature]
    simp only [returnType?_settings_iff]
  · intro other same
    have same' : SameOuterLayers m.signature.parameters other.parameters := by
      rw [signature]
      exact same
    exact ⟨(hasBlockedParameter_eq_of_layers same').symm,
      fun returned => (isBlocked_eq_of_layers same' returned).symm⟩

/-- Only the return type set last is flagged, and the order of the parameters does not matter. -/
theorem gate_of_frozen_of_returned_reference :
    let int : TypeDesc := .named 0 .null .i4 "System" "Int32"
    let usage : TypeDesc := .named 1 .null (.genericParameter 0 true) "" "T"
    let pointer : TypeDesc := .constructed 2 .pointer int
    let parameters : List Parameter :=
      [⟨5, .null, 0, 0, none, .constructed 3 .byRef pointer⟩,
        ⟨6, .null, 0, 1, some "x", .constructed 4 (.array 2) pointer⟩]
    let returned : TypeDesc := .constructed 7 .byRef usage
    let calls : List Call :=
      [.change (.returns pointer), .change .constructor, .change (.returns returned)]
    ∃ m, (((start ⟨0x06000001⟩ "M" ⟨6⟩ parameters).after calls).freeze 8).outcome = .ok m
      ∧ m.signature.hasBlockedParameter = false ∧ m.signature.isBlocked = true
      ∧ SameOuterLayers parameters parameters.reverse
      ∧ (⟨parameters.reverse, m.signature.role⟩ : Signature).isBlocked = true := by
  intro int usage pointer parameters returned calls
  let m : Method := ((start ⟨0x06000001⟩ "M" ⟨6⟩ parameters).after calls).toMethod 8 []
  have made : (((start ⟨0x06000001⟩ "M" ⟨6⟩ parameters).after calls).freeze 8).outcome = .ok m := by
    rw [outcome_freeze, if_pos (by decide)]
    rfl
  rcases gate_of_frozen 8 ⟨0x06000001⟩ "M" ⟨6⟩ parameters calls made with ⟨onParameters, onAll, onOther⟩
  have unflagged : ¬ ∃ p ∈ parameters, p.type.shape.Flagged := by
    rintro ⟨p, member, flagged⟩
    rcases List.mem_cons.1 member with rfl | member
    · cases flagged
    · cases List.mem_singleton.1 member
      cases flagged
  have blocked : m.signature.isBlocked = true :=
    onAll.2 (.inr ⟨returned, rfl, .byRefParameterBase 0 true⟩)
  have same : SameOuterLayers parameters parameters.reverse := by
    intro layers
    simp only [List.mem_reverse]
  have reordered := onOther { m with signature := ⟨parameters.reverse, m.signature.role⟩ } same
  exact ⟨m, made, Bool.eq_false_iff.2 fun blocked => unflagged (onParameters.1 blocked), blocked,
    same, (reordered.2 rfl).trans blocked⟩

end Draft
end Member
end CallableMembers
