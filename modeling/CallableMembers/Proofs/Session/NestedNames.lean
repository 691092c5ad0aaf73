import CallableMembers.Proofs.Session.NestedTypes
import CallableMembers.Proofs.Types.Marks

/-!
# NestedNames — what the name of a nested type tells about its wrappers

Of two nests around one type the names are equal exactly if the wrappers are, as far as they can
be written: an array of one dimension reads like a vector, whether its rank is one or zero.
-/

namespace CallableMembers
namespace Session

open CallableMembers.Types

variable {s s' s₁ s₁' : State} {e e' : TypeExpr} {b : TypeDesc}

/-- Two nests around the same type, each described in a state where that type is at hand, always
evaluate.  They have the same full name exactly if they have equally many wrappers and these agree
one by one, vectors and arrays of rank one or zero being the same.  If no rank is zero, types of
the same full name have the same flavors all the way down. -/
theorem nested_names_agree (evaluated : s.evaluate e = some (b, s₁))
    (evaluated' : s'.evaluate e' = some (b, s₁')) (ws ws' : List Wrapper) :
    ∃ t t' s₂ s₂', s.evaluate (e.nest ws) = some (t, s₂)
      ∧ s'.evaluate (e'.nest ws') = some (t', s₂')
      ∧ (t.fullName = t'.fullName ↔ List.Forall₂ Wrapper.Alike ws ws')
      ∧ ((∀ w ∈ ws, w.Ranked) → (∀ w ∈ ws', w.Ranked) → t.fullName = t'.fullName →
          t.flavorChain = t'.flavorChain) := by
  let layers := layersFrom s₁.ledger.nextId ws
  let layers' := layersFrom s₁'.ledger.nextId ws'
  have wrappers : layers.map Prod.snd = ws := map_snd_layersFrom ..
  have wrappers' : layers'.map Prod.snd = ws' := map_snd_layersFrom ..
  have names : (b.wrap layers).fullName = (b.wrap layers').fullName
      ↔ List.Forall₂ Wrapper.Alike ws ws' := by
    rw [b.fullName_wrap_eq_iff, wrappers, wrappers']
  refine ⟨b.wrap layers, b.wrap layers', _, _, evaluate_nest evaluated ws,
    evaluate_nest evaluated' ws', names, ?_⟩
  intro ranked ranked' same
  have flavors : ws.map Wrapper.flavor = ws'.map Wrapper.flavor :=
    Wrapper.map_flavor_eq (names.1 same) ranked ranked'
  rw [b.flavorChain_wrap, b.flavorChain_wrap, wrappers, wrappers', flavors]

/-- The second nest is described after the first one was stored.  A vector reads like an array of
rank one and has its flavor; two vectors do not read like one array of more dimensions. -/
theorem nested_names_agree_of_vectors :
    let s := (State.empty.run [.type "I" (.named .null .i4 "System" "Int32")]).1
    let b : TypeDesc := .named 0 .null .i4 "System" "Int32"
    let ws : List Wrapper := [.vector, .array 3, .byRef]
    let ws' : List Wrapper := [.array 1, .array 3, .byRef]
    let s' := (s.run [.type "R" ((TypeExpr.stored "I").nest ws)]).1
    s.evaluate (.stored "I") = some (b, s.retain 0)
      ∧ s'.evaluate (.stored "I") = some (b, s'.retain 0)
      ∧ (∃ t t' s₂ s₂', s.evaluate ((TypeExpr.stored "I").nest ws) = some (t, s₂)
          ∧ s'.evaluate ((TypeExpr.stored "I").nest ws') = some (t', s₂')
          ∧ t.fullName = t'.fullName ∧ t.flavorChain = t'.flavorChain)
      ∧ ∃ t t' s₂ s₂', s.evaluate ((TypeExpr.stored "I").nest [.vector, .vector]) = some (t, s₂)
          ∧ s'.evaluate ((TypeExpr.stored "I").nest [.array 3]) = some (t', s₂')
          ∧ t.fullName ≠ t'.fullName := by
  intro s b ws ws' s'
  have first : s.evaluate (.stored "I") = some (b, s.retain 0) := rfl
  have second : s'.evaluate (.stored "I") = some (b, s'.retain 0) := rfl
  have alike : List.Forall₂ Wrapper.Alike ws ws' :=
    .cons (.inr ⟨.vector, .rankOne⟩) (.cons (.inl rfl) (.cons (.inl rfl) .nil))
  have ranked : ∀ w ∈ ws, w.Ranked := by
    simp [ws, Wrapper.Ranked]
  have ranked' : ∀ w ∈ ws', w.Ranked := by
    simp [ws', Wrapper.Ranked]
  refine ⟨first, second, ?_, ?_⟩
  · rcases nested_names_agree first second ws ws' with
      ⟨t, t', s₂, s₂', evaluated, evaluated', names, flavors⟩
    have same := names.2 alike
    exact ⟨t, t', s₂, s₂', evaluated, evaluated', same, flavors ranked ranked' same⟩
  · rcases nested_names_agree first second [.vector, .vector] [.array 3] with
      ⟨t, t', s₂, s₂', evaluated, evaluated', names, -⟩
    refine ⟨t, t', s₂, s₂', evaluated, evaluated', mt names.1 fun alike => ?_⟩
    exact absurd alike.length_eq (by decide)

end Session
end CallableMembers
