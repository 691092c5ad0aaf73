import CallableMembers.Ownership.Ledger
import Mathlib.Logic.Relation
import Mathlib.Tactic.ByContra

/-!
# Accounting — a ledger whose counts are right

A ledger is sound for a list of roots if every object has as many holders as there are roots on it
and holds of live objects on it, and if no object on a cycle of holds has been released.  Making,
retaining, releasing and changing objects keep a ledger sound, each with its own effect on the
roots; releasing in particular always comes to an end within its bound.
-/

namespace CallableMembers
namespace Ownership

variable {α : Type}

/-- A list in which one item is changed contributes what it did, less the old, plus the new. -/
theorem flatMap_modify_perm {β γ : Type} (f : β → List γ) (g : β → β) {l : List β} {i : Nat} {b : β}
    (found : l[i]? = some b) : ((l.modify i g).flatMap f ++ f b).Perm (l.flatMap f ++ f (g b)) := by
  -- Along the list to the item that changes; what stands before it stays in front.
  induction l generalizing i with
  | nil => simp at found
  | cons c rest ih =>
      cases i with
      | zero =>
          obtain rfl : c = b := by simpa using found
          simp only [List.modify_zero_cons, List.flatMap_cons]
          calc
            (f (g c) ++ rest.flatMap f ++ f c).Perm (f (g c) ++ (rest.flatMap f ++ f c)) := by
              rw [List.append_assoc]
            List.Perm _ ((rest.flatMap f ++ f c) ++ f (g c)) := List.perm_append_comm
            List.Perm _ ((f c ++ rest.flatMap f) ++ f (g c)) :=
              List.Perm.append_right _ List.perm_append_comm
      | succ i =>
          simp only [List.modify_succ_cons, List.flatMap_cons, List.append_assoc]
          exact List.Perm.append_left _ (ih found)

namespace Ledger

/-! ## Objects, released or not -/

/-- The object made under an identity; unlike `find?` it does not ask whether it is live. -/
def object? (l : Ledger α) (i : ObjectId) : Option α :=
  l.entries[i]?.map Entry.object

theorem find?_eq_some_iff {l : Ledger α} {i : ObjectId} {x : α} :
    l.find? i = some x ↔ l.isLive i = true ∧ l.object? i = some x := by
  unfold find? object?
  by_cases live : l.isLive i <;> simp [live]

theorem object?_add (l : Ledger α) (x : α) (i : ObjectId) :
    (l.add x).object? i = if i = l.nextId then some x else l.object? i := by
  by_cases last : i = l.nextId
  · simp [object?, add, nextId, last]
  · by_cases below : i < l.entries.length
    · simp [object?, add, last, List.getElem?_append_left below]
    · have above : l.entries.length < i := Nat.lt_of_le_of_ne (Nat.le_of_not_lt below) (Ne.symm last)
      have gone : (l.entries ++ [⟨1, x⟩])[i]? = none := List.getElem?_eq_none (by simp; omega)
      have before : l.entries[i]? = none := List.getElem?_eq_none (Nat.le_of_lt above)
      simp [object?, add, last, gone, before]

@[simp] theorem object?_setHolders (l : Ledger α) (i j : ObjectId) (n : Nat) :
    (l.setHolders i n).object? j = l.object? j := by
  simp only [object?, setHolders, List.getElem?_modify]
  by_cases same : i = j
  · cases l.entries[j]? <;> simp [same]
  · cases l.entries[j]? <;> simp [same]

theorem object?_replace (l : Ledger α) (i j : ObjectId) (x : α) :
    (l.replace i x).object? j = if j = i then (l.object? j).map fun _ => x else l.object? j := by
  simp only [object?, replace, List.getElem?_modify]
  by_cases same : j = i
  · cases l.entries[j]? <;> simp [same]
  · have other : i ≠ j := fun h => same h.symm
    cases l.entries[j]? <;> simp [same, other]

theorem isLive_iff {l : Ledger α} {i : ObjectId} : l.isLive i = true ↔ 0 < l.holders i := by
  simp [isLive, Nat.pos_iff_ne_zero]

theorem holders_of_entry {l : Ledger α} {i : ObjectId} {e : Entry α} (found : l.entries[i]? = some e) :
    l.holders i = e.holders := by
  simp [holders, found]

theorem exists_entry_of_isLive {l : Ledger α} {i : ObjectId} (live : l.isLive i = true) :
    ∃ e, l.entries[i]? = some e ∧ e.holders = l.holders i := by
  cases found : l.entries[i]? with
  | none => simp [isLive, holders, found] at live
  | some e => exact ⟨e, rfl, (holders_of_entry found).symm⟩

theorem holders_setHolders_of_isLive {l : Ledger α} {i : ObjectId} (live : l.isLive i = true)
    (j : ObjectId) (n : Nat) :
    (l.setHolders i n).holders j = if j = i then n else l.holders j := by
  rw [holders_setHolders]
  by_cases same : j = i
  · simp [same, lt_nextId_of_isLive live]
  · simp [same]

theorem isLive_retain {l : Ledger α} {j : ObjectId} (live : l.isLive j = true) (i : ObjectId) :
    (l.retain i).isLive j = true := by
  rw [isLive_iff] at live ⊢
  rw [holders_retain]
  split <;> omega

theorem lt_nextId_of_object? {l : Ledger α} {i : ObjectId} {x : α} (found : l.object? i = some x) :
    i < l.nextId := by
  rcases Option.map_eq_some_iff.1 found with ⟨e, entry, -⟩
  exact (List.getElem?_eq_some_iff.1 entry).1

/-! ## Objects only fade -/

/-- The second ledger has the same objects, and of those no others live. -/
structure Fades (l l' : Ledger α) : Prop where
  objects : ∀ i, l'.object? i = l.object? i
  live : ∀ i, l'.isLive i = true → l.isLive i = true
  nextId : l'.nextId = l.nextId

theorem Fades.refl (l : Ledger α) : Fades l l :=
  ⟨fun _ => rfl, fun _ live => live, rfl⟩

theorem Fades.trans {l l' l'' : Ledger α} (first : Fades l l') (second : Fades l' l'') :
    Fades l l'' :=
  ⟨fun i => (second.objects i).trans (first.objects i),
    fun i live => first.live i (second.live i live), second.nextId.trans first.nextId⟩

theorem fades_setHolders (l : Ledger α) {i : ObjectId} {n : Nat}
    (alive : n ≠ 0 → l.isLive i = true) : Fades l (l.setHolders i n) := by
  refine ⟨fun j => object?_setHolders l i j n, ?_, nextId_setHolders l i n⟩
  intro j live
  by_cases same : j = i ∧ j < l.nextId
  · rw [isLive_iff, holders_setHolders, if_pos same] at live
    exact same.1 ▸ alive (Nat.pos_iff_ne_zero.1 live)
  · rwa [isLive_iff, holders_setHolders, if_neg same, ← isLive_iff] at live

theorem fades_retain (l : Ledger α) (i : ObjectId) : Fades l (l.retain i) := by
  unfold retain
  split
  · next live => exact fades_setHolders l fun _ => live
  · exact .refl l

theorem fades_retainAll (l : Ledger α) (ids : List ObjectId) : Fades l (l.retainAll ids) := by
  induction ids generalizing l with
  | nil => exact .refl l
  | cons i ids ih => exact (fades_retain l i).trans (ih (l.retain i))

/-- Only live objects are held once more. -/
theorem holders_retainAll {l : Ledger α} {ids : List ObjectId}
    (live : ∀ i ∈ ids, l.isLive i = true) (j : ObjectId) :
    (l.retainAll ids).holders j = l.holders j + ids.count j := by
  induction ids generalizing l with
  | nil => rfl
  | cons i ids ih =>
      have first : l.isLive i = true := live i (List.mem_cons_self ..)
      have rest : ∀ k ∈ ids, (l.retain i).isLive k = true :=
        fun k member => isLive_retain (live k (List.mem_cons_of_mem _ member)) i
      rw [retainAll, List.foldl_cons, ← retainAll, ih rest, holders_retain]
      by_cases same : j = i
      · subst same
        rw [if_pos ⟨rfl, first⟩, List.count_cons_self]
        omega
      · rw [if_neg fun both => same both.1, List.count_cons_of_ne (Ne.symm same)]

/-- A ledger is given by its objects and their holders. -/
theorem eq_of_holders {l l' : Ledger α} (objects : ∀ i, l'.object? i = l.object? i)
    (holders : ∀ i, l'.holders i = l.holders i) : l' = l := by
  have entries : l'.entries = l.entries := by
    apply List.ext_getElem?
    intro i
    have object := objects i
    have count := holders i
    simp only [object?, Ledger.holders] at object count
    cases found : l.entries[i]? with
    | none => simpa [found] using object
    | some e =>
        rw [found] at object
        rcases Option.map_eq_some_iff.1 object with ⟨e', found', same⟩
        rw [found, found'] at count
        rcases e with ⟨n, x⟩
        rcases e' with ⟨n', x'⟩
        cases same
        cases count
        exact found'
  exact congrArg Ledger.mk entries

/-! ## Holds -/

variable [Holder α]

/-- One object holds another.  A released object still shows what it held. -/
def Edge (l : Ledger α) (i j : ObjectId) : Prop :=
  ∃ x, l.object? i = some x ∧ j ∈ Holder.holds x

theorem mem_liveHolds_iff {l : Ledger α} {j : ObjectId} :
    j ∈ l.liveHolds ↔ ∃ i, l.isLive i = true ∧ l.Edge i j := by
  constructor
  · intro member
    rcases List.mem_flatMap.1 member with ⟨e, listed, held⟩
    rcases List.getElem?_of_mem listed with ⟨i, found⟩
    by_cases none : e.holders = 0
    · simp [Entry.activeHolds, none] at held
    · refine ⟨i, ?_, e.object, by simp [object?, found], ?_⟩
      · simp [isLive, holders_of_entry found, none]
      · simpa [Entry.activeHolds, none] using held
  · rintro ⟨i, live, x, found, held⟩
    rcases Option.map_eq_some_iff.1 found with ⟨e, entry, rfl⟩
    have some : e.holders ≠ 0 := by simpa [isLive, holders_of_entry entry] using live
    refine List.mem_flatMap.2 ⟨e, List.mem_of_getElem? entry, ?_⟩
    simpa [Entry.activeHolds, some] using held

/-- Changing one entry exchanges its holds. -/
theorem liveHolds_modify_perm (l : Ledger α) (g : Entry α → Entry α) {i : ObjectId} {e : Entry α}
    (found : l.entries[i]? = some e) :
    ((⟨l.entries.modify i g⟩ : Ledger α).liveHolds ++ e.activeHolds).Perm
      (l.liveHolds ++ (g e).activeHolds) :=
  flatMap_modify_perm Entry.activeHolds g found

/-- As long as it is not the last one, a holder more or less changes no holds. -/
theorem liveHolds_setHolders_perm (l : Ledger α) {i : ObjectId} {n : Nat}
    (live : l.isLive i = true) (some : n ≠ 0) :
    (l.setHolders i n).liveHolds.Perm l.liveHolds := by
  rcases exists_entry_of_isLive live with ⟨e, found, holders⟩
  have before : e.holders ≠ 0 := by
    rw [holders]
    exact Nat.pos_iff_ne_zero.1 (isLive_iff.1 live)
  have exchange := liveHolds_modify_perm l (fun e => { e with holders := n }) found
  simp only [Entry.activeHolds, before, some, if_false] at exchange
  exact (List.perm_append_right_iff _).1 exchange

/-- The last holder of an object takes the object's own holds away. -/
theorem liveHolds_perm_of_last (l : Ledger α) {i : ObjectId} {e : Entry α}
    (found : l.entries[i]? = some e) (live : e.holders ≠ 0) :
    l.liveHolds.Perm (Holder.holds e.object ++ (l.setHolders i 0).liveHolds) := by
  have exchange := liveHolds_modify_perm l (fun e => { e with holders := 0 }) found
  simp only [Entry.activeHolds, live, if_false, if_true, List.append_nil] at exchange
  exact exchange.symm.trans List.perm_append_comm

theorem liveHolds_add (l : Ledger α) (x : α) :
    (l.add x).liveHolds = l.liveHolds ++ Holder.holds x := by
  simp [liveHolds, add, Entry.activeHolds]

/-! ## Releasing lets objects fade -/

theorem Fades.edge_eq {l l' : Ledger α} (h : Fades l l') : l'.Edge = l.Edge := by
  funext i j
  simp only [Edge, h.objects]

theorem fades_settle (bound : Nat) (pending : List ObjectId) (l : Ledger α) :
    Fades l (settle bound pending l) := by
  fun_induction settle bound pending l with
  | case1 pending l => exact .refl l
  | case2 bound l => exact .refl l
  | case3 bound i pending l missing ih => exact ih
  | case4 bound i pending l e found last ih =>
      -- The object dies; none comes to life.
      exact (fades_setHolders l fun some => absurd rfl some).trans ih
  | case5 bound i pending l e found more ih =>
      refine (fades_setHolders l ?_).trans ih
      intro some
      rw [isLive_iff, holders_of_entry found]
      omega

theorem fades_releaseAll (l : Ledger α) (ids : List ObjectId) : Fades l (l.releaseAll ids) :=
  fades_settle _ ids l

/-! ## Holds that are taken and given back -/

/-- Where every object keeps a holder beyond the pending ones, nothing but the counts changes. -/
theorem holders_settle_of_spare {bound : Nat} {pending : List ObjectId} {l : Ledger α}
    (enough : pending.length ≤ bound) (spare : ∀ i ∈ pending, pending.count i < l.holders i)
    (j : ObjectId) : (settle bound pending l).holders j = l.holders j - pending.count j := by
  fun_induction settle bound pending l with
  | case1 pending l =>
      have none : pending = [] := List.length_eq_zero_iff.1 (by omega)
      simp [none]
  | case2 bound l => rfl
  | case3 bound i pending l missing ih =>
      have held := spare i (List.mem_cons_self ..)
      simp [holders, missing] at held
  | case4 bound i pending l e found last ih =>
      have held := spare i (List.mem_cons_self ..)
      rw [holders_of_entry found, List.count_cons_self] at held
      omega
  | case5 bound i pending l e found more ih =>
      have counted := holders_of_entry found
      have live : l.isLive i = true := by
        have held := spare i (List.mem_cons_self ..)
        rw [isLive_iff]
        omega
      have less := fun k => holders_setHolders_of_isLive live k (e.holders - 1)
      rw [List.length_cons] at enough
      rw [ih (by omega), less]
      · by_cases same : j = i
        · subst same
          rw [if_pos rfl, List.count_cons_self]
          omega
        · rw [if_neg same, List.count_cons_of_ne (Ne.symm same)]
      · intro k member
        have held := spare k (List.mem_cons_of_mem _ member)
        rw [less]
        by_cases same : k = i
        · subst same
          rw [List.count_cons_self] at held
          rw [if_pos rfl]
          omega
        · rw [List.count_cons_of_ne (Ne.symm same)] at held
          rwa [if_neg same]

/-- Live objects may be held any number of times more: once that is over, nothing has changed. -/
theorem releaseAll_retainAll {l : Ledger α} {ids : List ObjectId}
    (live : ∀ i ∈ ids, l.isLive i = true) : (l.retainAll ids).releaseAll ids = l := by
  have held := holders_retainAll live
  have spare : ∀ i ∈ ids, ids.count i < (l.retainAll ids).holders i := by
    intro i member
    have some := isLive_iff.1 (live i member)
    rw [held]
    omega
  apply eq_of_holders
  · intro i
    rw [(fades_releaseAll _ ids).objects, (fades_retainAll l ids).objects]
  · intro i
    rw [releaseAll, holders_settle_of_spare (Nat.le_add_right ..) spare, held]
    omega

/-! ## Sound ledgers -/

/-- The counts are right for these roots, and a cycle of holds keeps itself alive. -/
structure Sound (l : Ledger α) (roots : List ObjectId) : Prop where
  holders_eq : ∀ i, l.holders i = roots.count i + l.liveHolds.count i
  live_of_cycle : ∀ i, Relation.TransGen l.Edge i i → l.isLive i = true

theorem sound_empty : Sound (empty : Ledger α) [] := by
  refine ⟨fun _ => rfl, ?_⟩
  intro i cycle
  rcases Relation.TransGen.head'_iff.1 cycle with ⟨j, ⟨x, found, -⟩, -⟩
  simp [object?, empty] at found

/-- New holds that start at live objects close no cycle among released ones. -/
theorem live_of_cycle_of_edges {l l' : Ledger α}
    (old : ∀ i, Relation.TransGen l.Edge i i → l.isLive i = true)
    (kept : ∀ i, l.isLive i = true → l'.isLive i = true)
    (closed : ∀ i j, l'.isLive i = true → l'.Edge i j → l'.isLive j = true)
    (edges : ∀ i j, l'.Edge i j → l'.isLive i = true ∨ l.Edge i j) :
    ∀ i, Relation.TransGen l'.Edge i i → l'.isLive i = true := by
  intro i cycle
  by_contra dead
  -- A path that ends at a released object stays among released objects, hence in the old graph.
  have inOld : ∀ j, Relation.TransGen l'.Edge i j → ¬ l'.isLive j = true →
      Relation.TransGen l.Edge i j := by
    intro j path
    induction path with
    | single edge =>
        intro released
        rcases edges _ _ edge with live | edge'
        · exact absurd (closed _ _ live edge) released
        · exact .single edge'
    | tail _ edge ih =>
        intro released
        rcases edges _ _ edge with live | edge'
        · exact absurd (closed _ _ live edge) released
        · exact .tail (ih fun live => released (closed _ _ live edge)) edge'
  exact dead (kept i (old i (inOld i cycle dead)))

/-- Where the counts are right, what a live object holds is live. -/
theorem live_of_edge_of_holders_eq {l : Ledger α} {roots : List ObjectId}
    (count : ∀ i, l.holders i = roots.count i + l.liveHolds.count i) (i j : ObjectId)
    (live : l.isLive i = true) (edge : l.Edge i j) : l.isLive j = true := by
  have counted := List.count_pos_iff.2 (mem_liveHolds_iff.2 ⟨i, live, edge⟩)
  rw [isLive_iff, count]
  omega

namespace Sound

variable {l : Ledger α} {roots : List ObjectId} {i j : ObjectId}

theorem live_of_root (h : Sound l roots) (root : i ∈ roots) : l.isLive i = true := by
  have counted := List.count_pos_iff.2 root
  rw [isLive_iff, h.holders_eq]
  omega

theorem live_of_edge (h : Sound l roots) (live : l.isLive i = true) (edge : l.Edge i j) :
    l.isLive j = true :=
  live_of_edge_of_holders_eq h.holders_eq i j live edge

/-- What is live has a reason: a root, or a live object that holds it. -/
theorem root_or_edge_of_live (h : Sound l roots) (live : l.isLive i = true) :
    i ∈ roots ∨ ∃ j, l.isLive j = true ∧ l.Edge j i := by
  rw [isLive_iff, h.holders_eq] at live
  by_cases root : i ∈ roots
  · exact .inl root
  · rw [List.count_eq_zero.2 root, Nat.zero_add] at live
    exact .inr (mem_liveHolds_iff.1 (List.count_pos_iff.1 live))

/-- Only the number of roots on each object matters. -/
theorem congr {roots' : List ObjectId} (h : Sound l roots)
    (same : ∀ i, roots'.count i = roots.count i) : Sound l roots' :=
  ⟨fun i => (h.holders_eq i).trans (by rw [same]), h.live_of_cycle⟩

/-! ### Retaining -/

theorem retain (h : Sound l roots) (live : l.isLive i = true) : Sound (l.retain i) (i :: roots) := by
  have fades := fades_retain l i
  have holds : (l.retain i).liveHolds.Perm l.liveHolds := by
    unfold Ledger.retain
    rw [if_pos live]
    exact liveHolds_setHolders_perm l live (Nat.succ_ne_zero _)
  constructor
  · intro j
    have before := h.holders_eq j
    rw [holders_retain, holds.count_eq]
    by_cases same : j = i
    · subst same
      rw [if_pos ⟨rfl, live⟩, List.count_cons_self]
      omega
    · rw [if_neg fun both => same both.1, List.count_cons_of_ne (Ne.symm same)]
      exact before
  · intro j cycle
    rw [fades.edge_eq] at cycle
    exact isLive_retain (h.live_of_cycle j cycle) i

theorem retainAll (h : Sound l roots) {ids : List ObjectId} (live : ∀ i ∈ ids, l.isLive i = true) :
    Sound (l.retainAll ids) (ids ++ roots) := by
  induction ids generalizing l roots with
  | nil => exact h
  | cons i ids ih =>
      have first := h.retain (live i (List.mem_cons_self ..))
      have rest : ∀ j ∈ ids, (l.retain i).isLive j = true :=
        fun j member => isLive_retain (live j (List.mem_cons_of_mem _ member)) i
      refine (ih first rest).congr fun j => ?_
      simp only [List.count_append, List.cons_append, List.count_cons]
      omega

/-! ### Making -/

/-- A new object takes over the roots on what it holds, and is a root itself. -/
theorem add {x : α} (h : Sound l (Holder.holds x ++ roots)) :
    Sound (l.add x) (l.nextId :: roots) := by
  have unused := h.holders_eq l.nextId
  rw [holders_of_nextId_le l (Nat.le_refl _), List.count_append] at unused
  have count : ∀ j, (l.add x).holders j
      = (l.nextId :: roots).count j + (l.add x).liveHolds.count j := by
    intro j
    have before := h.holders_eq j
    rw [holders_add, liveHolds_add, List.count_append]
    rw [List.count_append] at before
    by_cases new : j = l.nextId
    · -- An identity that was not given out has neither roots nor holds.
      subst new
      rw [if_pos rfl, List.count_cons_self]
      omega
    · rw [if_neg new, List.count_cons_of_ne (Ne.symm new)]
      omega
  have kept : ∀ j, l.isLive j = true → (l.add x).isLive j = true := by
    intro j alive
    have below := lt_nextId_of_isLive alive
    rw [isLive_iff] at alive ⊢
    rwa [holders_add, if_neg (Nat.ne_of_lt below)]
  have closed := live_of_edge_of_holders_eq count
  refine ⟨count, live_of_cycle_of_edges h.live_of_cycle kept closed ?_⟩
  -- Edges of the new object start at a live one, all others were there before.
  rintro i j ⟨y, found, held⟩
  rw [object?_add] at found
  by_cases new : i = l.nextId
  · refine .inl ?_
    rw [isLive_iff, holders_add, if_pos new]
    exact Nat.one_pos
  · rw [if_neg new] at found
    exact .inr ⟨y, found, held⟩

/-! ### Changing -/

/-- A live object that comes to hold other objects takes over the roots on what is new, and gives
up as roots what it no longer holds. -/
theorem replace {x y : α} {taken given : List ObjectId} (h : Sound l (taken ++ roots))
    (live : l.isLive i = true) (found : l.object? i = some x)
    (exchange : ∀ j, (Holder.holds y).count j + given.count j
      = (Holder.holds x).count j + taken.count j) :
    Sound (l.replace i y) (given ++ roots) := by
  rcases Option.map_eq_some_iff.1 found with ⟨e, entry, rfl⟩
  have some : e.holders ≠ 0 := by simpa [isLive, holders_of_entry entry] using live
  have holds := liveHolds_modify_perm l (fun e => { e with object := y }) entry
  simp only [Entry.activeHolds, some, if_false] at holds
  have count : ∀ j, (l.replace i y).holders j
      = (given ++ roots).count j + (l.replace i y).liveHolds.count j := by
    intro j
    have before := h.holders_eq j
    have moved := holds.count_eq j
    have balance := exchange j
    rw [List.count_append] at before
    rw [List.count_append, List.count_append] at moved
    rw [holders_replace, List.count_append]
    -- `replace` changes the entry in place, which `holds` speaks of.
    change l.holders j = given.count j + roots.count j
      + (⟨l.entries.modify i fun e => { e with object := y }⟩ : Ledger α).liveHolds.count j
    omega
  have isLive : ∀ j, (l.replace i y).isLive j = l.isLive j := by
    intro j
    simp [Ledger.isLive]
  have closed := live_of_edge_of_holders_eq count
  refine ⟨count, live_of_cycle_of_edges h.live_of_cycle (fun j => (isLive j).trans) closed ?_⟩
  rintro i' j ⟨z, found', held⟩
  rw [object?_replace] at found'
  by_cases same : i' = i
  · exact .inl ((isLive i').trans (same ▸ live))
  · rw [if_neg same] at found'
    exact .inr ⟨z, found', held⟩

/-! ### Releasing -/

/-- The last root of an object that nothing holds: its holds become roots. -/
theorem releaseLast {e : Entry α} (h : Sound l (i :: roots)) (found : l.entries[i]? = some e)
    (last : e.holders = 1) : Sound (l.setHolders i 0) (Holder.holds e.object ++ roots) := by
  have fades : Fades l (l.setHolders i 0) := fades_setHolders l fun some => absurd rfl some
  -- The one holder of the object is the root that is given up.
  have one : l.holders i = 1 := (holders_of_entry found).trans last
  have live : l.isLive i = true := by rw [isLive_iff, one]; exact Nat.one_pos
  have holds := liveHolds_perm_of_last l found (by rw [last]; exact Nat.one_ne_zero)
  have unheld : l.liveHolds.count i = 0 := by
    have counted := h.holders_eq i
    rw [one, List.count_cons_self] at counted
    omega
  have dead := fun j => holders_setHolders_of_isLive live j 0
  constructor
  · intro j
    have before := h.holders_eq j
    have moved := holds.count_eq j
    rw [List.count_append] at moved
    rw [dead, List.count_append]
    by_cases same : j = i
    · -- Its one holder was the root, so nothing live held it, and it did not hold itself.
      subst same
      rw [one, List.count_cons_self] at before
      rw [if_pos rfl]
      omega
    · rw [List.count_cons_of_ne (Ne.symm same)] at before
      rw [if_neg same]
      omega
  · intro j cycle
    rw [fades.edge_eq] at cycle
    have before := h.live_of_cycle j cycle
    by_cases same : j = i
    · -- The object before `i` on the cycle is live as well and holds `i`.
      subst same
      rcases Relation.TransGen.tail'_iff.1 cycle with ⟨k, path, edge⟩
      have alive := h.live_of_cycle k (Relation.TransGen.head' edge path)
      have counted := List.count_pos_iff.2 (mem_liveHolds_iff.2 ⟨k, alive, edge⟩)
      omega
    · rwa [isLive_iff, dead, if_neg same, ← isLive_iff]

/-- One root less on an object that has other holders. -/
theorem releaseOne {e : Entry α} (h : Sound l (i :: roots)) (found : l.entries[i]? = some e)
    (more : e.holders ≠ 1) : Sound (l.setHolders i (e.holders - 1)) roots := by
  have holders := holders_of_entry found
  have live : l.isLive i = true := h.live_of_root (List.mem_cons_self ..)
  have some : e.holders - 1 ≠ 0 := by
    rw [isLive_iff, holders] at live
    omega
  have fades := fades_setHolders l (n := e.holders - 1) fun _ => live
  have holds := liveHolds_setHolders_perm l live some
  have less := fun j => holders_setHolders_of_isLive live j (e.holders - 1)
  constructor
  · intro j
    have before := h.holders_eq j
    rw [less, holds.count_eq]
    by_cases same : j = i
    · subst same
      rw [holders, List.count_cons_self] at before
      rw [if_pos rfl]
      omega
    · rw [List.count_cons_of_ne (Ne.symm same)] at before
      rw [if_neg same]
      exact before
  · intro j cycle
    rw [fades.edge_eq] at cycle
    have before := h.live_of_cycle j cycle
    rw [isLive_iff] at before ⊢
    rw [less]
    split
    · omega
    · exact before

/-- With a bound that counts the pending roots and all holds of live objects, every pending root
is given up.  A round spends one unit: it takes a root off the list, and the holds that it puts
there were counted before. -/
theorem settle {bound : Nat} {pending : List ObjectId} (h : Sound l (pending ++ roots))
    (enough : pending.length + l.liveHolds.length ≤ bound) : Sound (settle bound pending l) roots := by
  fun_induction Ledger.settle bound pending l with
  | case1 pending l =>
      -- A bound of zero leaves nothing pending.
      have none : pending = [] := List.length_eq_zero_iff.1 (by omega)
      simpa [none] using h
  | case2 bound l => exact h
  | case3 bound i pending l missing ih =>
      -- A root is live, so it has an entry.
      have live : l.isLive i = true := h.live_of_root (by simp)
      simp [isLive, holders, missing] at live
  | case4 bound i pending l e found last ih =>
      -- The holds of the object move from the ledger to the list.
      apply ih
      · rw [List.append_assoc]
        exact releaseLast h found last
      · have holds := (liveHolds_perm_of_last l found (by omega)).length_eq
        rw [List.length_append] at holds ⊢
        rw [List.length_cons] at enough
        omega
  | case5 bound i pending l e found more ih =>
      -- The list gets shorter and no hold of the ledger is touched.
      apply ih
      · exact releaseOne h found more
      · have live : l.isLive i = true := h.live_of_root (by simp)
        have some : e.holders - 1 ≠ 0 := by
          rw [isLive_iff, holders_of_entry found] at live
          omega
        have holds := (liveHolds_setHolders_perm l live some).length_eq
        rw [List.length_cons] at enough
        omega

theorem releaseAll {ids : List ObjectId} (h : Sound l (ids ++ roots)) :
    Sound (l.releaseAll ids) roots :=
  h.settle (Nat.le_refl _)

end Sound
end Ledger
end Ownership
end CallableMembers
