import CallableMembers.Proofs.Member.DraftReports

/-!
# ConstructorMarking — how far the marking of constructors reaches

A member stores the attribute word of its draft; only a constructor under options that ask for it
gets the two bits of a special name on top.  Nothing else can be told from that option: two
histories that differ in it alone report and refuse the same, and their members answer alike
except where the two bits themselves are read.
-/

namespace CallableMembers

namespace Flags
namespace Attributes

/-! ## The word without the two bits -/

def unmarked (a : Attributes) : Attributes :=
  ⟨a.word &&& ~~~specialNames⟩

@[simp] theorem unmarked_markSpecialName (a : Attributes) :
    a.markSpecialName.unmarked = a.unmarked :=
  congrArg Attributes.mk (word_markSpecialName_and (by decide))

section Unmarked

variable {a : Attributes} {mask : UInt16}

theorem word_unmarked_and (kept : ~~~specialNames &&& mask = mask) :
    a.unmarked.word &&& mask = a.word &&& mask := by
  rw [unmarked, UInt16.and_assoc, kept]

theorem has_unmarked (kept : ~~~specialNames &&& mask = mask) :
    a.unmarked.has mask = a.has mask := by
  rw [has, word_unmarked_and kept, has]

theorem grants_unmarked (access : Access) : a.unmarked.grants access = a.grants access := by
  rw [grants, word_unmarked_and (by decide), grants]

theorem isInstance_unmarked : a.unmarked.isInstance = a.isInstance := by
  rw [isInstance, isStatic, isVirtual, has_unmarked (by decide), has_unmarked (by decide)]
  rfl

theorem access?_unmarked : a.unmarked.access? = a.access? := by
  rw [access?, word_unmarked_and (by decide), access?]

theorem vtable_unmarked : a.unmarked.vtable = a.vtable := by
  rw [vtable, word_unmarked_and (by decide), vtable]

end Unmarked

/-- The predicate reads one of the two bits. -/
def ReadsMark (name : String) : Prop :=
  name = "special_name" ∨ name = "rt_special_name"

/-- Every predicate but two is blind to the two bits. -/
theorem predicate_unmarked {q : String × (Attributes → Bool)} (listed : q ∈ predicates)
    (blind : ¬ ReadsMark q.1) (a : Attributes) : q.2 a.unmarked = q.2 a := by
  simp only [predicates, List.mem_cons, List.not_mem_nil, or_false] at listed
  -- A predicate tests a mask, compares the accessibility, or combines two tests.
  rcases listed with rfl | rfl | rfl | rfl | rfl | rfl | rfl | rfl | rfl | rfl | rfl | rfl | rfl
    | rfl | rfl | rfl | rfl
  all_goals first
    | exact absurd (.inl rfl) blind
    | exact absurd (.inr rfl) blind
    | exact has_unmarked (by decide)
    | exact grants_unmarked _
    | exact isInstance_unmarked

end Attributes
end Flags

namespace Member

open CallableMembers.Flags CallableMembers.Generics CallableMembers.Types

/-! ## Members that differ in the two bits at most -/

namespace Method

def unmarked (m : Method) : Method :=
  { m with attributes := m.attributes.unmarked }

theorem display_unmarked (m : Method) : m.unmarked.display = m.display := by
  have static : m.unmarked.attributes.isStatic = m.attributes.isStatic :=
    Attributes.has_unmarked (by decide)
  have abstract? : m.unmarked.attributes.isAbstract = m.attributes.isAbstract :=
    Attributes.has_unmarked (by decide)
  have virtual : m.unmarked.attributes.isVirtual = m.attributes.isVirtual :=
    Attributes.has_unmarked (by decide)
  have access : m.unmarked.attributes.access? = m.attributes.access? := Attributes.access?_unmarked
  have words : m.unmarked.modifierWords = m.modifierWords := by
    rw [modifierWords, static, abstract?, virtual, access]
    rfl
  rw [display, words]
  rfl

/-- The members agree in every query that does not read the two bits. -/
structure AlikeButMarking (m m' : Method) : Prop where
  /-- Token, name, declaring type, convention, implementation, signature and generic parameters,
  and with them all that is read from these alone. -/
  fields : m' = { m with attributes := m'.attributes }
  access : m'.attributes.access? = m.attributes.access?
  vtable : m'.attributes.vtable = m.attributes.vtable
  predicates : ∀ q ∈ Attributes.predicates, ¬ Attributes.ReadsMark q.1 →
    q.2 m'.attributes = q.2 m.attributes
  gate : m'.signature.hasBlockedParameter = m.signature.hasBlockedParameter
    ∧ m'.signature.isBlocked = m.signature.isBlocked
  display : m'.display = m.display
  /-- Only constructors are marked. -/
  ordinary : m.isConstructor = false → m' = m

theorem alikeButMarking_of_fields {m m' : Method}
    (fields : m' = { m with attributes := m'.attributes })
    (words : m'.attributes.unmarked = m.attributes.unmarked)
    (ordinary : m.isConstructor = false → m' = m) : m.AlikeButMarking m' := by
  refine ⟨fields, ?_, ?_, ?_, ?_, ?_, ordinary⟩
  · rw [← Attributes.access?_unmarked, words, Attributes.access?_unmarked]
  · rw [← Attributes.vtable_unmarked, words, Attributes.vtable_unmarked]
  · intro q listed blind
    rw [← Attributes.predicate_unmarked listed blind, words,
      Attributes.predicate_unmarked listed blind]
  · rw [fields]
    exact ⟨rfl, rfl⟩
  · have same : m'.unmarked = m.unmarked := by
      rw [unmarked, words, fields]
      rfl
    rw [← display_unmarked, same, display_unmarked]

end Method

namespace Draft

/-! ## The stored word -/

/-- The kind was last set to a constructor, and the options set last ask for marks. -/
def MarksConstructor (calls : List Call) : Prop :=
  lastOf Call.role? calls = some .constructor
    ∧ ∃ options, lastOf Call.options? calls = some options ∧ options.markConstructors = true

theorem marksConstructor_iff {calls : List Call} :
    MarksConstructor calls
      ↔ (settings calls).role = .constructor ∧ (settings calls).options.markConstructors = true := by
  simp only [MarksConstructor, settings]
  -- A draft starts as a method and with options that ask for nothing.
  cases lastOf Call.role? calls with
  | none => simp
  | some role =>
      cases lastOf Call.options? calls with
      | none => simp [FreezeOptions.strict]
      | some options => simp

/-- What the word of the draft becomes in the member. -/
structure KeepsWord (word : UInt16) (calls : List Call) (m : Method) : Prop where
  marked : MarksConstructor calls →
    m.attributes.word = word ||| (Bit.specialName ||| Bit.runtimeSpecialName)
  asRead : ¬ MarksConstructor calls → m.attributes.word = word
  withReceiver : word &&& Bit.static = 0 → m.convention.bits = 0x0001 ||| 0x0020
  withoutReceiver : word &&& Bit.static ≠ 0 → m.convention.bits = 0x0001

theorem keepsWord_of_freeze {id : ObjectId} {token : Token} {name : String}
    {attributes : Attributes} {parameters : List Parameter} {calls : List Call} {m : Method}
    (made : (((start token name attributes parameters).after calls).freeze id).outcome = .ok m) :
    KeepsWord attributes.word calls m := by
  have origin := sameOrigin_after (start token name attributes parameters) calls
  have ⟨_, _, signature, options⟩ := fields_after_start token name attributes parameters calls
  rcases exists_toMethod_of_freeze made with ⟨view, rfl⟩
  generalize (start token name attributes parameters).after calls = d at *
  have raw : d.attributes = attributes := origin.attributes
  have role : d.signature.role = (settings calls).role := by rw [signature]
  have word : (d.toMethod id view).attributes = _ := storedAttributes_eq d
  have bits : (d.toMethod id view).convention = _ := convention_storedAttributes d
  rw [raw, role, options] at word
  rw [raw] at bits
  refine ⟨?_, ?_, ?_, ?_⟩
  · intro marks
    rw [word, if_pos (marksConstructor_iff.1 marks)]
    rfl
  · intro keeps
    rw [word, if_neg fun marks => keeps (marksConstructor_iff.2 marks)]
  · intro clear
    rw [bits]
    exact if_pos clear
  · intro set
    rw [bits]
    exact if_neg set

/-! ## Two histories -/

/-- The calls are the same, or bring options with the same policy. -/
inductive Call.SameButMarking : Call → Call → Prop where
  | same (c : Call) : SameButMarking c c
  | options {options options' : FreezeOptions} : options'.gaps = options.gaps →
      SameButMarking (.change (.options options)) (.change (.options options'))

/-- The drafts differ at most in whether constructors are to be marked. -/
structure SameButMarking (d d' : Draft) : Prop where
  fields : d' = { d with options := d'.options }
  gaps : d'.options.gaps = d.options.gaps

namespace SameButMarking

variable {d d' : Draft}

theorem refl (d : Draft) : SameButMarking d d := ⟨rfl, rfl⟩

theorem perform {c c' : Call} (h : SameButMarking d d') (paired : c.SameButMarking c') :
    SameButMarking (d.perform c) (d'.perform c') := by
  rcases h with ⟨fields, gaps⟩
  generalize d'.options = options at *
  subst fields
  cases paired with
  | same c => rcases c with ⟨_ | _ | _ | _ | _ | _⟩ | _ <;> exact ⟨rfl, by first | exact gaps | rfl⟩
  | options same =>
      refine ⟨?_, same⟩
      simp only [Draft.perform, Draft.apply, same]

theorem after {calls calls' : List Call} (h : SameButMarking d d')
    (paired : List.Forall₂ Call.SameButMarking calls calls') :
    SameButMarking (d.after calls) (d'.after calls') := by
  induction paired generalizing d d' with
  | nil => exact h
  | cons first _ ih => exact ih (h.perform first)

theorem roster (h : SameButMarking d d') : d'.roster = d.roster := by
  rw [h.fields]

theorem reported {c c' : Call} (h : SameButMarking d d') (paired : c.SameButMarking c') :
    d'.reported c' = d.reported c := by
  cases paired with
  | same c =>
      cases c with
      | change change => rfl
      | peek => exact congrArg (fun r => r.read.events) h.roster
  | options => rfl

theorem log {calls calls' : List Call} (h : SameButMarking d d')
    (paired : List.Forall₂ Call.SameButMarking calls calls') :
    d'.log calls' = d.log calls := by
  induction paired generalizing d d' with
  | nil => rfl
  | cons first _ ih => rw [log_cons, log_cons, h.reported first, ih (h.perform first)]

/-! ## Freezing two drafts -/

theorem fields_toMethod (h : SameButMarking d d') (id : ObjectId) (view : List GenericParameter) :
    d'.toMethod id view
      = { d.toMethod id view with attributes := (d'.toMethod id view).attributes } := by
  rw [h.fields]
  simp only [toMethod, convention_storedAttributes]

theorem unmarked_toMethod (h : SameButMarking d d') (id : ObjectId) (view : List GenericParameter) :
    (d'.toMethod id view).attributes.unmarked = (d.toMethod id view).attributes.unmarked := by
  have stored : ∀ d : Draft, d.storedAttributes.unmarked = d.attributes.unmarked := by
    intro d
    unfold storedAttributes
    split <;> simp
  rw [h.fields]
  exact (stored _).trans (stored d).symm

theorem toMethod_of_ordinary (h : SameButMarking d d') (id : ObjectId)
    (view : List GenericParameter) (ordinary : d.signature.role.isConstructor = false) :
    d'.toMethod id view = d.toMethod id view := by
  have stored : d'.storedAttributes = d.storedAttributes := by
    rw [h.fields]
    simp [storedAttributes, ordinary]
  rw [h.fields_toMethod]
  exact congrArg (fun attributes => { d.toMethod id view with attributes := attributes }) stored

theorem alike_toMethod (h : SameButMarking d d') (id : ObjectId) (view : List GenericParameter) :
    (d.toMethod id view).AlikeButMarking (d'.toMethod id view) :=
  Method.alikeButMarking_of_fields (h.fields_toMethod id view) (h.unmarked_toMethod id view)
    (h.toMethod_of_ordinary id view)

theorem events_freeze (h : SameButMarking d d') (id : ObjectId) :
    (d'.freeze id).events = (d.freeze id).events := by
  rw [h.fields, freeze, freeze]
  cases d.token.isCallable with
  | false => rfl
  | true => cases view : d.roster.read.view <;> simp only [view, if_true]

theorem outcome_freeze (h : SameButMarking d d') (id : ObjectId) :
    (∀ e, (d'.freeze id).outcome = .error e ↔ (d.freeze id).outcome = .error e)
      ∧ ∀ m, (d.freeze id).outcome = .ok m →
          ∃ m', (d'.freeze id).outcome = .ok m' ∧ m.AlikeButMarking m' := by
  have token : d'.token = d.token := by rw [h.fields]
  have name : d'.name = d.name := by rw [h.fields]
  simp only [Draft.outcome_freeze, h.roster, token, name]
  split
  · cases view : d.roster.read.view with
    | error e => simp [Except.map]
    | ok arranged =>
        refine ⟨by simp [Except.map], ?_⟩
        intro m made
        cases made
        exact ⟨_, rfl, h.alike_toMethod id arranged⟩
  · simp

end SameButMarking

/-! ## The reach of the marking -/

/-- Whatever the history, the member stores the word of the draft, marked exactly if it was last
made a constructor and the options set last ask for it; its convention follows from the word
before.  Another history that differs only in whether options ask for marks leaves the same
roster at every point, so that all views read on the way are the same; it reports the same, is
refused in the same way, and otherwise yields a member that shows a difference only where the
two bits are read, and none at all if it is no constructor. -/
theorem marking_of_constructors (id : ObjectId) (token : Token) (name : String)
    (attributes : Attributes) (parameters : List Parameter) (calls : List Call) :
    let d := start token name attributes parameters
    (∀ m, ((d.after calls).freeze id).outcome = .ok m → KeepsWord attributes.word calls m)
      ∧ ∀ calls' : List Call, List.Forall₂ Call.SameButMarking calls calls' →
          (d.after calls').roster = (d.after calls).roster
            ∧ d.log calls' ++ ((d.after calls').freeze id).events
                = d.log calls ++ ((d.after calls).freeze id).events
            ∧ (∀ e, ((d.after calls').freeze id).outcome = .error e
                ↔ ((d.after calls).freeze id).outcome = .error e)
            ∧ ∀ m, ((d.after calls).freeze id).outcome = .ok m →
                ∃ m', ((d.after calls').freeze id).outcome = .ok m' ∧ m.AlikeButMarking m' := by
  intro d
  refine ⟨fun m made => keepsWord_of_freeze made, ?_⟩
  intro calls' paired
  have start := SameButMarking.refl d
  have drafts := start.after paired
  refine ⟨drafts.roster, ?_, drafts.outcome_freeze id⟩
  rw [start.log paired, drafts.events_freeze]

/-- Options that are set before the constructor mark it all the same.  Without the mark the
member stores the word of the draft; with it, two bits more, and it is displayed alike. -/
theorem marking_of_constructors_of_two_options :
    let u : GenericParameter := ⟨0, .null, 1, 0, "U"⟩
    let history (options : FreezeOptions) : List Call :=
      [.change (.options options), .change (.generic u), .peek, .change .constructor]
    let calls := history ⟨.lenient, true⟩
    let calls' := history ⟨.lenient, false⟩
    let d := start ⟨0x06000001⟩ ".ctor" ⟨0x0006⟩ []
    List.Forall₂ Call.SameButMarking calls calls'
      ∧ MarksConstructor calls ∧ ¬ MarksConstructor calls'
      ∧ ∃ m m', ((d.after calls).freeze 0).outcome = .ok m
          ∧ ((d.after calls').freeze 0).outcome = .ok m'
          ∧ m.attributes.word = 0x1806 ∧ m'.attributes.word = 0x0006
          ∧ m.convention.bits = 0x0021
          ∧ m'.display = m.display ∧ m.display = "public .ctor()" := by
  intro u history calls calls' d
  have paired : List.Forall₂ Call.SameButMarking calls calls' :=
    .cons (.options rfl) (.cons (.same _) (.cons (.same _) (.cons (.same _) .nil)))
  have marks : MarksConstructor calls := ⟨rfl, ⟨.lenient, true⟩, rfl, rfl⟩
  have keeps : ¬ MarksConstructor calls' := by
    rintro ⟨_, options, last, on⟩
    cases last
    cases on
  have made : ((d.after calls).freeze 0).outcome = .ok ((d.after calls).toMethod 0 []) := by
    rw [outcome_freeze, if_pos (by decide)]
    rfl
  have ⟨words, pairs⟩ := marking_of_constructors 0 ⟨0x06000001⟩ ".ctor" ⟨0x0006⟩ [] calls
  have stored := words _ made
  rcases (pairs calls' paired).2.2.2 _ made with ⟨m', made', alike⟩
  have ⟨words', _⟩ := marking_of_constructors 0 ⟨0x06000001⟩ ".ctor" ⟨0x0006⟩ [] calls'
  have stored' := words' m' made'
  refine ⟨paired, marks, keeps, _, m', made, made', ?_⟩
  refine ⟨stored.marked marks, stored'.asRead keeps, stored.withReceiver (by decide), ?_, by decide⟩
  exact alike.display

end Draft
end Member
end CallableMembers
