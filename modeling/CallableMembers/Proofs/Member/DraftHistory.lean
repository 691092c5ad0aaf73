import CallableMembers.Member.Draft
import CallableMembers.Proofs.Generics.RosterHistory

/-!
# DraftHistory — what becomes of a draft after any history of calls

A draft is changed and peeked at in any order before it is frozen.  What freezing yields depends
on the last call of each kind and on the generic parameters added, and on nothing else: neither
the second copy of the policy in the roster nor the views cached by peeks can be told from it.
-/

namespace CallableMembers
namespace Member

open CallableMembers.Flags CallableMembers.Generics CallableMembers.Types

namespace Draft

/-! ## Histories of calls -/

inductive Call where
  | change (c : Change)
  /-- Asks for the view of the generic parameters. -/
  | peek
  deriving DecidableEq, Repr

namespace Call

/-- The declaring type that the call leaves behind, if it sets one. -/
def declaring? : Call → Option (Option WeakRef)
  | .change (.declaredBy owner) => some (some (.of owner))
  | _ => none

def implementation? : Call → Option Implementation
  | .change (.implementation word) => some word
  | _ => none

/-- Return types and the change to a constructor replace each other. -/
def role? : Call → Option Role
  | .change (.returns t) => some (.method (some t))
  | .change .constructor => some .constructor
  | _ => none

def options? : Call → Option FreezeOptions
  | .change (.options options) => some options
  | _ => none

def generic? : Call → Option GenericParameter
  | .change (.generic p) => some p
  | _ => none

/-- What the call asks of the roster. -/
def onRoster? : Call → Option Roster.Call
  | .change (.options options) => some (.setPolicy options.gaps)
  | .change (.generic p) => some (.register p)
  | .peek => some .read
  | _ => none

end Call

def perform (d : Draft) : Call → Draft
  | .change c => d.apply c
  | .peek => d.read.1

def after (d : Draft) (calls : List Call) : Draft :=
  calls.foldl perform d

/-! ## What freezing depends on -/

def lastOf {α : Type} (setting? : Call → Option α) (calls : List Call) : Option α :=
  (calls.filterMap setting?).getLast?

/-- The outcome of a history: the last setting of each kind, and all generic parameters. -/
structure Settings where
  declaring? : Option WeakRef
  implementation : Implementation
  role : Role
  options : FreezeOptions
  generics : List GenericParameter

def settings (calls : List Call) : Settings where
  declaring? := (lastOf Call.declaring? calls).getD none
  implementation := (lastOf Call.implementation? calls).getD ⟨0⟩
  role := (lastOf Call.role? calls).getD (.method none)
  options := (lastOf Call.options? calls).getD .strict
  generics := calls.filterMap Call.generic?

namespace Settings

/-- Constructors are marked as special names only on demand. -/
def storedWord (s : Settings) (word : UInt16) : UInt16 :=
  if s.role = .constructor ∧ s.options.markConstructors = true then word ||| 0x1800 else word

/-- The member that the settings describe, or the reason there is none. -/
def outcome (s : Settings) (id : ObjectId) (token : Token) (name : String)
    (attributes : Attributes) (parameters : List Parameter) : Except MemberError Method :=
  if token.table = Token.Table.methodDef ∨ token.table = Token.Table.memberRef then
    match arrange s.options.gaps s.generics with
    | .error e => .error e
    | .ok view =>
        .ok
          { id := id
            token := token
            name := name
            declaring? := s.declaring?
            attributes := ⟨s.storedWord attributes.word⟩
            convention := ⟨if attributes.word &&& 0x0010 = 0 then 0x0021 else 0x0001⟩
            implementation := s.implementation
            signature := ⟨parameters, s.role⟩
            generics := s.generics
            genericView := view }
  else
    .error (.foreignToken name token)

end Settings

/-! ## The draft mirrors its history -/

@[simp] theorem after_nil (d : Draft) : d.after [] = d := rfl

@[simp] theorem after_cons (d : Draft) (c : Call) (calls : List Call) :
    d.after (c :: calls) = (d.perform c).after calls := rfl

/-- A field that every call sets or leaves alone holds the last setting of the history. -/
theorem field_after {α : Type} (field : Draft → α) {setting? : Call → Option α}
    (one : ∀ d c, field (perform d c) = (setting? c).getD (field d)) (d : Draft)
    (calls : List Call) : field (d.after calls) = (lastOf setting? calls).getD (field d) := by
  induction calls generalizing d with
  | nil => rfl
  | cons c calls ih =>
      rw [after_cons, ih, one]
      cases h : setting? c with
      | none => simp [lastOf, h]
      | some x => simp [lastOf, h, List.getLast?_cons]

theorem declaring?_perform (d : Draft) (c : Call) :
    (d.perform c).declaring? = c.declaring?.getD d.declaring? := by
  rcases c with ⟨_ | _ | _ | _ | _ | _⟩ | _ <;> rfl

theorem implementation_perform (d : Draft) (c : Call) :
    (d.perform c).implementation = c.implementation?.getD d.implementation := by
  rcases c with ⟨_ | _ | _ | _ | _ | _⟩ | _ <;> rfl

theorem role_perform (d : Draft) (c : Call) :
    (d.perform c).signature.role = c.role?.getD d.signature.role := by
  rcases c with ⟨_ | _ | _ | _ | _ | _⟩ | _ <;> rfl

theorem options_perform (d : Draft) (c : Call) :
    (d.perform c).options = c.options?.getD d.options := by
  rcases c with ⟨_ | _ | _ | _ | _ | _⟩ | _ <;> rfl

theorem roster_perform (d : Draft) (c : Call) :
    (d.perform c).roster = d.roster.after c.onRoster?.toList := by
  rcases c with ⟨_ | _ | _ | _ | _ | _⟩ | _ <;> rfl

/-- What no call touches. -/
structure SameOrigin (d d' : Draft) : Prop where
  token : d'.token = d.token
  name : d'.name = d.name
  attributes : d'.attributes = d.attributes
  parameters : d'.signature.parameters = d.signature.parameters

theorem sameOrigin_perform (d : Draft) (c : Call) : SameOrigin d (d.perform c) := by
  rcases c with ⟨_ | _ | _ | _ | _ | _⟩ | _ <;> exact ⟨rfl, rfl, rfl, rfl⟩

theorem sameOrigin_after (d : Draft) (calls : List Call) : SameOrigin d (d.after calls) := by
  induction calls generalizing d with
  | nil => exact ⟨rfl, rfl, rfl, rfl⟩
  | cons c calls ih =>
      have first := sameOrigin_perform d c
      have rest := ih (d.perform c)
      exact ⟨rest.token.trans first.token, rest.name.trans first.name,
        rest.attributes.trans first.attributes, rest.parameters.trans first.parameters⟩

/-- The roster of a draft has a history of its own. -/
theorem roster_after (d : Draft) (calls : List Call) :
    (d.after calls).roster = d.roster.after (calls.filterMap Call.onRoster?) := by
  induction calls generalizing d with
  | nil => rfl
  | cons c calls ih =>
      rw [after_cons, ih, roster_perform, ← Roster.after_append]
      cases h : c.onRoster? <;> simp [h]

theorem registered_onRoster (calls : List Call) :
    Roster.registered (calls.filterMap Call.onRoster?) = calls.filterMap Call.generic? := by
  rw [Roster.registered, List.filterMap_filterMap]
  congr 1
  funext c
  rcases c with ⟨_ | _ | _ | _ | _ | _⟩ | _ <;> rfl

/-- The two copies of the policy agree. -/
theorem policyInForce_onRoster (calls : List Call) :
    Roster.policyInForce .strict (calls.filterMap Call.onRoster?) = (settings calls).options.gaps := by
  -- Every change of the options is passed on to the roster, and nothing else sets its policy.
  have policies :
      (calls.filterMap Call.onRoster?).filterMap Roster.Call.policy?
        = (calls.filterMap Call.options?).map FreezeOptions.gaps := by
    rw [List.filterMap_filterMap, List.map_filterMap]
    congr 1
    funext c
    rcases c with ⟨_ | _ | _ | _ | _ | _⟩ | _ <;> rfl
  rw [Roster.policyInForce, policies, List.getLast?_map]
  simp only [settings, lastOf]
  cases (calls.filterMap Call.options?).getLast? <;> rfl

/-- The view that freezing reads, whatever peeks have cached. -/
theorem view_after_start (token : Token) (name : String) (attributes : Attributes)
    (parameters : List Parameter) (calls : List Call) :
    ((start token name attributes parameters).after calls).roster.read.view
      = arrange (settings calls).options.gaps (settings calls).generics := by
  -- Peeks may have cached views under earlier policies; the invariant of rosters covers them.
  have current := (Roster.current_withPolicy .strict).after (calls.filterMap Call.onRoster?)
  rw [roster_after]
  calc
    (Roster.empty.after (calls.filterMap Call.onRoster?)).read.view
        = arrange (Roster.empty.after (calls.filterMap Call.onRoster?)).policy
            (Roster.empty.after (calls.filterMap Call.onRoster?)).params := current.view_read
    _ = arrange (settings calls).options.gaps (settings calls).generics := by
          rw [Roster.policy_after, Roster.params_after, registered_onRoster]
          exact congrArg (arrange · _) (policyInForce_onRoster calls)

theorem generics_after_start (token : Token) (name : String) (attributes : Attributes)
    (parameters : List Parameter) (calls : List Call) :
    ((start token name attributes parameters).after calls).roster.params
      = (settings calls).generics := by
  rw [roster_after, Roster.params_after, registered_onRoster]
  rfl

theorem fields_after_start (token : Token) (name : String) (attributes : Attributes)
    (parameters : List Parameter) (calls : List Call) :
    let d := (start token name attributes parameters).after calls
    d.declaring? = (settings calls).declaring?
      ∧ d.implementation = (settings calls).implementation
      ∧ d.signature = ⟨parameters, (settings calls).role⟩
      ∧ d.options = (settings calls).options := by
  intro d
  have origin : SameOrigin _ d := sameOrigin_after (start token name attributes parameters) calls
  -- The role is a field of the signature, beside the parameters that no call touches.
  have role : d.signature.role = (settings calls).role :=
    field_after (·.signature.role) role_perform _ calls
  refine ⟨field_after (·.declaring?) declaring?_perform _ calls,
    field_after (·.implementation) implementation_perform _ calls, ?_,
    field_after (·.options) options_perform _ calls⟩
  rw [← role, ← show d.signature.parameters = parameters from origin.parameters]

/-! ## Freezing -/

theorem isCallable_iff (token : Token) :
    token.isCallable = true
      ↔ token.table = Token.Table.methodDef ∨ token.table = Token.Table.memberRef := by
  simp [Token.isCallable]

theorem storedAttributes_eq (d : Draft) :
    d.storedAttributes
      = ⟨if d.signature.role = .constructor ∧ d.options.markConstructors = true then
          d.attributes.word ||| 0x1800 else d.attributes.word⟩ := by
  unfold storedAttributes
  cases role : d.signature.role with
  | method returnType? => simp [Role.isConstructor]
  | constructor =>
      cases d.options.markConstructors with
      | true => simp [Role.isConstructor, Attributes.markSpecialName]; rfl
      | false => simp [Role.isConstructor]

/-- Marking a constructor does not show in the convention. -/
theorem convention_storedAttributes (d : Draft) :
    d.storedAttributes.convention
      = ⟨if d.attributes.word &&& 0x0010 = 0 then 0x0021 else 0x0001⟩ := by
  have unmarked : d.storedAttributes.convention = d.attributes.convention := by
    unfold storedAttributes
    split <;> simp
  rw [unmarked, Attributes.convention, Attributes.isStatic, Attributes.has]
  by_cases instance? : d.attributes.word &&& 0x0010 = 0
  · simp only [Bit.static, instance?, bne_self_eq_false, Bool.false_eq_true, if_false, if_true]
    rfl
  · simp [Bit.static, instance?]

/-- What a draft yields, in terms of its fields and of the view it reads. -/
theorem outcome_freeze (d : Draft) (id : ObjectId) :
    (d.freeze id).outcome
      = if d.token.table = Token.Table.methodDef ∨ d.token.table = Token.Table.memberRef then
          d.roster.read.view.map (d.toMethod id)
        else .error (.foreignToken d.name d.token) := by
  unfold freeze
  by_cases callable : d.token.isCallable
  · rw [if_pos callable, if_pos ((isCallable_iff _).1 callable)]
    cases h : d.roster.read.view <;> simp only [h, Except.map]
  · have foreign := fun h => callable ((isCallable_iff d.token).2 h)
    rw [if_neg callable, if_neg foreign]

/-- A member that comes out of a draft has the fields of the draft. -/
theorem exists_toMethod_of_freeze {d : Draft} {id : ObjectId} {m : Method}
    (made : (d.freeze id).outcome = .ok m) : ∃ view, m = d.toMethod id view := by
  rw [outcome_freeze] at made
  split at made
  · cases view : d.roster.read.view with
    | error e =>
        rw [view] at made
        cases made
    | ok view' =>
        rw [view] at made
        cases made
        exact ⟨view', rfl⟩
  · cases made

theorem outcome_freeze_after_start (id : ObjectId) (token : Token) (name : String)
    (attributes : Attributes) (parameters : List Parameter) (calls : List Call) :
    (((start token name attributes parameters).after calls).freeze id).outcome
      = (settings calls).outcome id token name attributes parameters := by
  have origin := sameOrigin_after (start token name attributes parameters) calls
  have view := view_after_start token name attributes parameters calls
  have generics := generics_after_start token name attributes parameters calls
  obtain ⟨declaring, implementation, signature, options⟩ :=
    fields_after_start token name attributes parameters calls
  generalize (start token name attributes parameters).after calls = d at *
  -- From here on only the fields of the draft matter, not the history they come from.
  have same : d.toMethod id = fun view =>
      { id := id
        token := token
        name := name
        declaring? := (settings calls).declaring?
        attributes := ⟨(settings calls).storedWord attributes.word⟩
        convention := ⟨if attributes.word &&& 0x0010 = 0 then 0x0021 else 0x0001⟩
        implementation := (settings calls).implementation
        signature := ⟨parameters, (settings calls).role⟩
        generics := (settings calls).generics
        genericView := view } := by
    funext view
    rw [toMethod, convention_storedAttributes, storedAttributes_eq, signature, generics,
      declaring, implementation, options, origin.token, origin.name, origin.attributes]
    rfl
  rw [outcome_freeze, view, same, origin.token, origin.name]
  unfold Settings.outcome
  cases arrange (settings calls).options.gaps (settings calls).generics <;> rfl

theorem signature_of_freeze {id : ObjectId} {token : Token} {name : String}
    {attributes : Attributes} {parameters : List Parameter} {calls : List Call} {m : Method}
    (made : (((start token name attributes parameters).after calls).freeze id).outcome = .ok m) :
    m.signature = ⟨parameters, (settings calls).role⟩ := by
  rcases exists_toMethod_of_freeze made with ⟨view, rfl⟩
  exact (fields_after_start token name attributes parameters calls).2.2.1

/-! ## Parameters given by their types -/

theorem toNat_position_ofType {i : Nat} (small : i < UInt32.size) (id : ObjectId) (t : TypeDesc) :
    (Parameter.ofType id i t).position.toNat = i := by
  have exact : UInt32.ofNatClamp i = UInt32.ofNat i := UInt32.ofNatClamp_eq_ofNat i small
  rw [Parameter.ofType, exact, UInt32.toNat_ofNat_of_lt' small]

/-- As long as no position is clamped, every parameter stands at the position of its type. -/
theorem map_ofTypes (firstId : ObjectId) {types : List TypeDesc} (few : types.length ≤ UInt32.size) :
    (Parameter.ofTypes firstId types).map
        (fun p => (p.token, p.name?, p.flags, p.position.toNat, p.type))
      = types.mapIdx fun i t => (Token.null, none, 0, i, t) := by
  apply List.ext_getElem?
  intro i
  cases typeAt : types[i]? with
  | none => simp [Parameter.ofTypes, typeAt]
  | some t =>
      have inside : i < types.length := (List.getElem?_eq_some_iff.1 typeAt).1
      have position : (Parameter.ofType (firstId + i) i t).position.toNat = i :=
        toNat_position_ofType (Nat.lt_of_lt_of_le inside few) (firstId + i) t
      have made : (Parameter.ofTypes firstId types)[i]? = some (.ofType (firstId + i) i t) := by
        simp [Parameter.ofTypes, typeAt]
      rw [List.getElem?_map, made, List.getElem?_mapIdx, typeAt, Option.map_some, position]
      rfl

/-! ## Freezing depends on the last settings only -/

/-- Whatever the history of changes and peeks, freezing yields what the last setting of each kind
and the generic parameters added describe.  A draft that starts from at most 2³² types is one
that starts from a list of parameters: for every type, in order, one without row, name and flags
at the position of the type. -/
theorem freeze_after_history (id : ObjectId) (token : Token) (name : String)
    (attributes : Attributes) (calls : List Call) :
    (∀ parameters : List Parameter,
        (((start token name attributes parameters).after calls).freeze id).outcome
          = (settings calls).outcome id token name attributes parameters)
      ∧ ∀ (firstId : ObjectId) (types : List TypeDesc), types.length ≤ UInt32.size →
          ∃ parameters : List Parameter,
            parameters.map (fun p => (p.token, p.name?, p.flags, p.position.toNat, p.type))
                = types.mapIdx (fun i t => (Token.null, none, 0, i, t))
              ∧ (((startOfTypes firstId token name attributes types).after calls).freeze id).outcome
                  = (settings calls).outcome id token name attributes parameters := by
  constructor
  · intro parameters
    exact outcome_freeze_after_start id token name attributes parameters calls
  · intro firstId types few
    exact ⟨Parameter.ofTypes firstId types, map_ofTypes firstId few,
      outcome_freeze_after_start id token name attributes _ calls⟩

/-- A peek under the strict policy fails; the lenient options set later and the last role count. -/
theorem freeze_after_history_of_types :
    let int : TypeDesc := .named 0 .null .i4 "System" "Int32"
    let types : List TypeDesc := [int, .constructed 1 .pointer int]
    let calls : List Call :=
      [.change (.generic ⟨0, .null, 1, 0, "U"⟩), .peek, .change (.returns int),
        .change (.options .lenient), .peek, .change .constructor]
    types.length ≤ UInt32.size
      ∧ ∃ parameters : List Parameter,
          parameters.map (fun p => (p.token, p.name?, p.flags, p.position.toNat, p.type))
              = types.mapIdx (fun i t => (Token.null, none, 0, i, t))
            ∧ (((startOfTypes 2 ⟨0x06000001⟩ ".ctor" ⟨6⟩ types).after calls).freeze 4).outcome
                = .ok
                    { id := 4
                      token := ⟨0x06000001⟩
                      name := ".ctor"
                      declaring? := none
                      attributes := ⟨6⟩
                      convention := ⟨0x0021⟩
                      implementation := ⟨0⟩
                      signature := ⟨parameters, .constructor⟩
                      generics := [⟨0, .null, 1, 0, "U"⟩]
                      genericView := [] } := by
  intro int types calls
  have few : types.length ≤ UInt32.size := by decide
  obtain ⟨parameters, shape, outcome⟩ :=
    (freeze_after_history 4 ⟨0x06000001⟩ ".ctor" ⟨6⟩ calls).2 2 types few
  refine ⟨few, parameters, shape, ?_⟩
  rw [outcome]
  rfl

end Draft
end Member
end CallableMembers
