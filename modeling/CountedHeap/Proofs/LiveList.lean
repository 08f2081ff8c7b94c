import CountedHeap.Roster
import CountedHeap.Proofs.Requests
import CountedHeap.Proofs.Tidy

/-!
The list of live objects. The heap keeps no list of its own: what is listed are the live
slots, in the order in which they were filled. This is the list of a roster. An object that
is made joins it at the end under the next number, one that ends leaves it from whatever
place, a shutdown takes out the first until none is left, and nothing else that is done to
the heap moves anything on it. So the order in which a collection and a report go through
the live objects is the order of a list to which each was added when it was made.
-/

namespace CountedHeap

/-- The live objects as a roster. -/
def Heap.roster (H : Heap) : Roster Object :=
  ⟨H.listed, H.slots.size⟩

/-- One move on a roster: other contents under the same nodes, a new node at the end, or a
node that leaves from its place or from the front. -/
inductive Roster.Move {α : Type} : Roster α → Roster α → Prop
  | edit {r r' : Roster α} (nodes : r'.nodes = r.nodes) (nextNode : r'.nextNode = r.nextNode) :
      Move r r'
  | join (r : Roster α) (a : α) : Move r (r.pushBack a).2
  | leave {r r' : Roster α} {node : Nat} {a : α} (left : r.unlink? node = some (a, r')) :
      Move r r'
  | depart {r r' : Roster α} {a : α} (left : r.popFront? = some (a, r')) : Move r r'

def Roster.Moves {α : Type} : Roster α → Roster α → Prop :=
  Relation.ReflTransGen Roster.Move

/-- The nodes are in the order in which they joined, and none is there twice. -/
structure Roster.Ordered {α : Type} (r : Roster α) : Prop where
  ascending : r.nodes.Pairwise (· < ·)
  below : ∀ node ∈ r.nodes, node < r.nextNode

/-! ### Rosters -/

section

variable {α : Type} {r r' : Roster α} {a : α} {node : Nat}

theorem Roster.nodes_pushBack (r : Roster α) (a : α) :
    (r.pushBack a).2.nodes = r.nodes ++ [r.nextNode] := by
  rw [Roster.nodes, Roster.pushBack, List.map_append, Roster.nodes]
  rfl

theorem Roster.unlink?_eq_some (left : r.unlink? node = some (a, r')) :
    r' = { r with members := r.members.eraseP (·.1 == node) } := by
  rw [Roster.unlink?] at left
  split at left
  · cases left
    rfl
  · cases left

/-- A node that left and joined again can leave again, and the rest is as it was. -/
theorem Roster.unlink?_relink (absent : node ∉ r.nodes) :
    (r.relink node a).unlink? node = some (a, r) := by
  have other (entry : Nat × α) (mem : entry ∈ r.members) : (entry.1 == node) = false := by
    rw [beq_eq_false_iff_ne]
    rintro rfl
    exact absent (List.mem_map_of_mem mem)
  have passed : r.members.lookup node = none :=
    List.lookup_eq_none_iff.2 fun entry mem => by rw [bne, BEq.comm, other entry mem]; rfl
  have found : (r.relink node a).members.lookup node = some a := by
    rw [Roster.relink, List.lookup_append, passed, Option.none_or, List.lookup_cons_self]
  have erased : (r.relink node a).members.eraseP (·.1 == node) = r.members := by
    rw [Roster.relink, List.eraseP_append_right _ fun entry mem => by simp [other entry mem],
      List.eraseP_cons_of_pos (by simp), List.append_nil]
  rw [Roster.unlink?, found, erased]
  rfl

theorem Roster.Ordered.sublist (ordered : r.Ordered) (kept : r'.nodes.Sublist r.nodes)
    (nextNode : r'.nextNode = r.nextNode) : r'.Ordered :=
  ⟨ordered.ascending.sublist kept, fun node mem => nextNode ▸ ordered.below node (kept.subset mem)⟩

theorem Roster.Move.ordered (move : r.Move r') (ordered : r.Ordered) : r'.Ordered := by
  cases move with
  | edit nodes nextNode => exact ordered.sublist (nodes ▸ List.Sublist.refl _) nextNode
  | join a =>
      refine ⟨?_, fun node mem => ?_⟩
      · rw [Roster.nodes_pushBack, List.pairwise_append]
        refine ⟨ordered.ascending, List.pairwise_singleton _ _, fun node mem last here => ?_⟩
        rw [List.mem_singleton.1 here]
        exact ordered.below node mem
      · rw [Roster.nodes_pushBack, List.mem_append, List.mem_singleton] at mem
        rcases mem with before | rfl
        · exact Nat.lt_succ_of_lt (ordered.below node before)
        · exact Nat.lt_succ_self _
  | leave left =>
      rw [Roster.unlink?_eq_some left]
      exact ordered.sublist (List.eraseP_sublist.map _) rfl
  | depart left =>
      rw [Roster.popFront?] at left
      split at left
      · rename_i first rest members
        cases left
        refine ordered.sublist ?_ rfl
        rw [Roster.nodes, Roster.nodes, members]
        exact List.sublist_cons_self _ _
      · cases left

theorem Roster.Moves.ordered (moves : r.Moves r') (ordered : r.Ordered) : r'.Ordered := by
  induction moves with
  | refl => exact ordered
  | tail _ move ih => exact move.ordered ih

/-- Taking out the first node until none is left. -/
theorem Roster.moves_empty (members : List (Nat × α)) (nextNode : Nat) :
    Roster.Moves ⟨members, nextNode⟩ ⟨[], nextNode⟩ := by
  induction members with
  | nil => exact .refl
  | cons entry rest ih =>
      have first : Roster.Move ⟨entry :: rest, nextNode⟩ ⟨rest, nextNode⟩ := .depart rfl
      exact .head first ih

end

/-! ### Lists by number -/

section

variable {α : Type} {g : Nat → Option α}

/-- What is listed under a number. -/
theorem lookup_filterMap (g : Nat → Option α) (ns : List Nat) (node : Nat) :
    (ns.filterMap fun n => (g n).map fun a => (n, a)).lookup node =
      if node ∈ ns then g node else none := by
  induction ns with
  | nil => rfl
  | cons n rest ih =>
      by_cases same : node = n
      · subst same
        cases held : g node with
        | none => simp [held, ih]
        | some a => simp [held]
      · have differs : (node == n) = false := beq_eq_false_iff_ne.2 same
        cases held : g n with
        | none => simp [held, ih, same]
        | some a => simp [held, List.lookup_cons, differs, ih, same]

/-- The list without one of its numbers. -/
theorem eraseP_filterMap {ns : List Nat} (nodup : ns.Nodup) (node : Nat) :
    (ns.filterMap fun n => (g n).map fun a => (n, a)).eraseP (·.1 == node) =
      ns.filterMap fun n => if n = node then none else (g n).map fun a => (n, a) := by
  induction ns with
  | nil => rfl
  | cons n rest ih =>
      obtain ⟨fresh, nodup'⟩ := List.nodup_cons.1 nodup
      have later := ih nodup'
      cases held : g n with
      | none => simp only [List.filterMap_cons, held, Option.map_none, ite_self, later]
      | some a =>
          by_cases same : n = node
          · subst same
            -- The rest does not mention the node again.
            have rest_eq : (rest.filterMap fun k => if k = n then none
                else (g k).map fun a => (k, a)) =
                  rest.filterMap fun k => (g k).map fun a => (k, a) :=
              List.filterMap_congr fun k mem => if_neg fun (again : k = n) => fresh (again ▸ mem)
            simp [held, rest_eq]
          · simp [held, same, later]

end

/-! ### The heap -/

section

variable {H H' : Heap} {h : Handle} {o : Object}

theorem Heap.nodes_roster (H : Heap) :
    H.roster.nodes = (List.range H.slots.size).filter H.isLive := by
  rw [Roster.nodes, Heap.roster, Heap.listed_eq, List.map_filterMap, ← List.filterMap_eq_filter]
  refine List.filterMap_congr fun h _ => ?_
  show Option.map Prod.fst (Option.map (fun o => (h, o)) (H.slot h).live?) =
    if (H.slot h).isLive then some h else none
  generalize H.slot h = s
  cases s <;> rfl

theorem Heap.contains_roster (H : Heap) (h : Handle) : H.roster.contains h = H.isLive h := by
  rw [Roster.contains, Heap.nodes_roster, Bool.eq_iff_iff, List.contains_iff_mem, List.mem_filter,
    List.mem_range]
  refine ⟨And.right, fun live => ⟨?_, live⟩⟩
  by_contra outside
  rw [Heap.isLive, H.slot_of_size_le (Nat.le_of_not_lt outside)] at live
  cases live

/-- What is made joins the roster at the end, and its node is its handle. -/
theorem Heap.pushBack_roster (H : Heap) (o : Object) :
    H.roster.pushBack o = ((H.allocate o).1, (H.allocate o).2.roster) := by
  have listed : (H.allocate o).2.listed = H.listed ++ [(H.slots.size, o)] := by
    rw [Heap.listed, Heap.allocate, Array.toList_push, List.zipIdx_append, List.filterMap_append,
      Array.length_toList, Nat.zero_add, Heap.listed]
    rfl
  have size : (H.allocate o).2.slots.size = H.slots.size + 1 := Array.size_push ..
  rw [Heap.roster, Heap.roster, listed, size]
  rfl

/-- What ends leaves the roster, whether its header is parked or not. -/
theorem Heap.unlink?_roster (H : Heap) (h : Handle) (size : Nat) (park : Bool) :
    H.roster.unlink? h = (H.live? h).map fun o => (o, (H.retire h size park).roster) := by
  have found : H.listed.lookup h = H.live? h := by
    rw [Heap.listed_eq, lookup_filterMap fun h => (H.slot h).live?]
    split
    · rfl
    · rename_i outside
      rw [Heap.live?, H.slot_of_size_le (by simpa using outside)]
      rfl
  have erased : H.listed.eraseP (·.1 == h) = (H.retire h size park).listed := by
    rw [Heap.listed_eq, Heap.listed_eq, eraseP_filterMap List.nodup_range, Heap.size_retire]
    refine List.filterMap_congr fun k _ => ?_
    rw [Heap.slot_retire]
    split
    · cases park <;> cases H.slot k <;> rfl
    · rfl
  rw [Roster.unlink?, Heap.roster]
  dsimp only
  rw [found, erased]
  cases H.live? h with
  | none => rfl
  | some o => rw [Heap.roster, Heap.size_retire]; rfl

theorem Heap.moves_of_isLive (size : H'.slots.size = H.slots.size)
    (same : ∀ k, H'.isLive k = H.isLive k) : H.roster.Moves H'.roster := by
  refine .single (.edit ?_ size)
  rw [Heap.nodes_roster, Heap.nodes_roster, size]
  exact List.filter_congr fun k _ => same k

theorem Heap.moves_update (H : Heap) (h : Handle) (f : Object → Object) :
    H.roster.Moves (H.update h f).roster :=
  Heap.moves_of_isLive Heap.size_update fun _ => Heap.isLive_update _

theorem Heap.moves_retire (H : Heap) (h : Handle) (size : Nat) (park : Bool) :
    H.roster.Moves (H.retire h size park).roster := by
  have left := H.unlink?_roster h size park
  cases live : H.live? h with
  | some o =>
      rw [live] at left
      exact .single (.leave left)
  | none =>
      have gone : H.isLive h = false := by rw [Heap.isLive, Slot.isLive, ← Heap.live?, live]; rfl
      rw [Heap.retire, if_neg (Bool.eq_false_iff.1 gone)]
      exact .refl

theorem Heap.moves_scan (H : Heap) : H.roster.Moves H.enlist.scan.dismiss.roster := by
  have same := Heap.scan_keep (H := H)
    (P := fun H' => H'.slots.size = H.slots.size ∧ ∀ k, H'.isLive k = H.isLive k) ?_ ?_
    ⟨rfl, fun _ => rfl⟩
  · exact Heap.moves_of_isLive same.1 same.2
  · rintro H' h f - ⟨size, live⟩
    exact ⟨Heap.size_update.trans size, fun k => (Heap.isLive_update k).trans (live k)⟩
  · rintro H' f - ⟨size, live⟩
    refine ⟨(Array.size_map ..).trans size, fun k => ?_⟩
    rw [← live k, Heap.isLive, Heap.slot_mapLive, Heap.isLive]
    cases H'.slot k <;> rfl

theorem Heap.moves_clear (H : Heap) : H.roster.Moves H.clear.roster := by
  have none : H.clear.roster = ⟨[], H.slots.size⟩ := by
    have unlisted : H.clear.listed = [] := by
      rw [Heap.listed_eq, List.filterMap_eq_nil_iff]
      intro k _
      rw [Heap.slot_clear]
      rfl
    rw [Heap.roster, unlisted]
    exact congrArg (Roster.mk []) (Array.size_map ..)
  rw [none]
  exact Roster.moves_empty H.listed H.slots.size

end

/-! ### Runs -/

section

variable {C : Set Handle} {K : Prop} {e e' : Engine}

theorem Engine.slotWork_roster :
    Engine.SlotWork fun e e' => e.heap.roster.Moves e'.heap.roster where
  refl _ := .refl
  trans first later := first.trans later
  drop _ _ := Heap.moves_update _ _ _
  empty _ _ := Heap.moves_update _ _ _
  retire _ _ _ _ := Heap.moves_retire _ _ _ _
  scan _ := Heap.moves_scan _
  sweep _ _ := Heap.moves_update _ _ _
  finalized _ _ := .refl
  surplus _ _ _ := .refl
  stray _ := .refl
  doing _ _ := .refl

theorem Engine.Change.roster (change : Engine.Change C K e e') :
    e.heap.roster.Moves e'.heap.roster := by
  cases change with
  | aside heap made finalized finalizers isClosed =>
      rw [heap]
      exact .refl
  | recount h g => exact Heap.moves_update _ _ _
  | claim mem g => exact Heap.moves_update _ _ _
  | lengthen found bare size => exact Heap.moves_update _ _ _
  | shorten found bare size => exact Heap.moves_update _ _ _
  | dispose h => exact Engine.slotWork_roster.dispose e h
  | sweep =>
      have scanned := e.heap.moves_scan
      have discarded := Engine.slotWork_roster.foldl Engine.slotWork_roster.discard
        { e with heap := e.heap.enlist.scan.dismiss } e.heap.enlist.scan.dismiss.garbage
      exact scanned.trans discarded
  | @place classId payload hopen fits =>
      have joined := Roster.Move.join e.heap.roster (Object.new classId payload)
      rw [Heap.pushBack_roster] at joined
      exact .single joined
  | close closing =>
      rw [Engine.heap_close]
      exact e.heap.moves_clear

/-- Whatever is asked of an engine, its live objects are listed as on a roster that each
joined when it was made. -/
theorem Engine.roster_run (e : Engine) (requests : List Action) :
    e.heap.roster.Moves (e.run requests).2.heap.roster := by
  refine Engine.run_keep (P := fun e' => e.heap.roster.Moves e'.heap.roster) ?_ .refl requests
  intro e' a before
  refine Engine.perform_keep (P := fun e' => e.heap.roster.Moves e'.heap.roster) ?_ ?_ e' a before
  · exact fun change before => before.trans change.roster
  · exact fun _ _ before => before

/-- So no object is ever listed twice, and the list is in the order in which its objects
were made. -/
theorem Engine.ordered_run (limits : Limits) (requests : List Action) :
    ((Engine.new limits).run requests).2.heap.roster.Ordered := by
  refine ((Engine.new limits).roster_run requests).ordered ⟨List.Pairwise.nil, ?_⟩
  exact fun node mem => absurd mem List.not_mem_nil

end

end CountedHeap
