import CountedHeap.Proofs.Collection
import CountedHeap.Proofs.Work

/-!
The two loops that follow references: the one that works off the queue of a release, and
the one that works off the stack of a scan. Both add to their list while they take from
it, and both come to an end, whatever refers to whatever and whatever the counts are.

For the queue this is because an object joins it at the moment when its positive count
ends. No count rises while the queue is worked off, so this happens once. For the stack
it is because an object is pushed at the moment when it is first reached.
-/

namespace CountedHeap

/-- If the handle names a header, its count is not positive. -/
def Heap.Spent (H : Heap) (h : Handle) : Prop :=
  ∀ o, H.object? h = some o → o.count ≤ 0

/-- The object whose payload is taken in the turn of `h`, if it still has one. -/
def Engine.taken (e : Engine) (h : Handle) : List Handle :=
  if (e.heap.object? h).any fun o => !o.freed then [h] else []

/-- The loop that works off the queue of an engine: begun on `e` it stops with the last
engine. Meanwhile the first list has joined the queue, and the payloads of the second
were taken, each in this order. -/
inductive Engine.WorksOff : Engine → List Handle → List Handle → Engine → Prop
  | done {e : Engine} (queue : e.work.waiting = []) : WorksOff e [] [] e
  | turn {e e' e'' : Engine} {h : Handle} {rest zeroed joined ended : List Handle}
      (queue : e.work.waiting = h :: rest)
      (step : (e.doing { e.work with waiting := rest }).dispose h = (zeroed, e'))
      (goesOn : WorksOff (e'.join zeroed) joined ended e'') :
      WorksOff e (zeroed ++ joined) (e.taken h ++ ended) e''

/-- The host has given back on the bridge the only reference that the object counted. -/
def Engine.relinquishedLast (e : Engine) (h : Handle) : Engine :=
  e.updateObject h fun o => { o.adopt with count := 0 }

/-- The drain that `h` starts comes to an end with nothing left in the queue. No object
joins the queue twice, and no payload is taken twice, in the order of the queue. -/
def Engine.DrainsOnce (e : Engine) (h : Handle) : Prop :=
  ∃ joined ended e', ((e.join [h]).setDraining true).WorksOff joined ended e' ∧
    e.queueZero h = e'.setDraining false ∧ e'.work.waiting = [] ∧
    (h :: joined).Nodup ∧ ended.Nodup ∧ ended.Sublist (h :: joined)

/-- The scan comes to an end. It begins with the roots on its stack, no object is on the
stack twice, and those that were are the ones that a path from a root leads to. -/
def Heap.ScansOnce (H : Heap) : Prop :=
  ∃ (pushed : List Handle) (S : Finset Handle),
    Heap.Scans (H.enlist.seeds.foldl Heap.reach H.enlist) H.enlist.seeds.reverse pushed
      H.enlist.scan ∧
    (pushed ++ H.enlist.seeds.reverse).Nodup ∧
    (∀ k ∈ pushed ++ H.enlist.seeds.reverse, H.isLive k = true) ∧
    (∀ k, k ∈ H.enlist.seeds ↔ H.Rooted k) ∧
    H.enlist.scan = H.paint S ∧ ∀ k, k ∈ S ↔ H.Linked k

section

variable {H : Heap} {e e' : Engine} {h k : Handle} {o : Object} {f : Object → Object}
  {joined ended : List Handle}

/-! ### Counts that fall -/

theorem Heap.Spent.update (spent : H.Spent k) (falls : ∀ o, (f o).count ≤ o.count) :
    (H.update h f).Spent k := by
  intro o found
  rw [Heap.object?_update] at found
  split at found
  · obtain ⟨o, before, rfl⟩ := Option.map_eq_some_iff.1 found
    exact (falls o).trans (spent o before)
  · exact spent o found

theorem Heap.Spent.retire {size : Nat} {park : Bool} (spent : H.Spent k) :
    (H.retire h size park).Spent k := by
  intro o found
  refine spent o ?_
  rw [Heap.object?, Heap.slot_retire] at found
  rw [Heap.object?]
  split at found
  · cases slot : H.slot k <;> rw [slot] at found
    · cases park
      · cases found
      · exact found
    · cases park <;> exact found
    · cases park <;> exact found
  · exact found

theorem Heap.Spent.dropReference (spent : e.heap.Spent k) :
    (e.dropReference h).2.heap.Spent k := by
  rw [Engine.dropReference]
  split
  · split
    · exact spent.update fun o => Int.sub_le_self o.count (by decide)
    · exact spent
  · exact spent

theorem Heap.Spent.dropAll {found hs : List Handle} (spent : e.heap.Spent k) :
    (e.dropAll found hs).2.heap.Spent k := by
  induction hs generalizing e found with
  | nil => exact spent
  | cons h rest ih =>
      have first := spent.dropReference (h := h)
      rw [Engine.dropAll]
      split <;> rename_i e' drop <;> rw [drop] at first <;> exact ih first

theorem Heap.Spent.dispose (spent : e.heap.Spent k) : (e.dispose h).2.heap.Spent k := by
  rw [Engine.dispose]
  split
  · rename_i o found
    split
    · exact spent
    · have released : ((e.updateObject h Object.release).finalize h o).heap.Spent k := by
        rw [Engine.heap_finalize]
        exact spent.update fun _ => Int.le_refl _
      exact released.dropAll.retire
  · exact spent

/-! ### What joins the queue -/

/-- The last reference on an object is dropped once. -/
theorem Engine.spent_of_last (last : (e.dropReference h).1 = true) :
    ¬ e.heap.Spent h ∧ (e.dropReference h).2.heap.Spent h := by
  rw [Engine.dropReference] at last ⊢
  split at last
  · rename_i o found
    split at last
    · rename_i counted
      rw [if_pos counted]
      refine ⟨fun spent => absurd (spent o found) (by omega), fun o' after => ?_⟩
      rw [Engine.heap_updateObject, Heap.object?_update, if_pos rfl, found] at after
      obtain rfl := Option.some.inj after
      have one : o.count = 1 := by simpa using last
      show o.count - 1 ≤ 0
      omega
    · cases last
  · cases last

/-- Among the objects found by dropping references none stands twice. Each had a positive
count before, and has none after. -/
structure Engine.LosesLast (e : Engine) (zeroed : List Handle) (e' : Engine) : Prop where
  nodup : zeroed.Nodup
  before : ∀ k ∈ zeroed, ¬ e.heap.Spent k
  after : ∀ k ∈ zeroed, e'.heap.Spent k

theorem Engine.losesLast_nil : Engine.LosesLast e [] e' :=
  ⟨List.nodup_nil, nofun, nofun⟩

theorem Engine.losesLast_dropAll (e : Engine) (found hs : List Handle) : ∃ zeroed,
    (e.dropAll found hs).1 = found.reverse ++ zeroed ∧
      e.LosesLast zeroed (e.dropAll found hs).2 := by
  induction hs generalizing e found with
  | nil => exact ⟨[], (List.append_nil _).symm, Engine.losesLast_nil⟩
  | cons h rest ih =>
      have kept := fun k (spent : e.heap.Spent k) => spent.dropReference (h := h)
      rw [Engine.dropAll]
      split <;> rename_i e₁ drop <;> rw [drop] at kept
      · -- `h` has just lost its last reference, so it is not found again.
        have last := Engine.spent_of_last (e := e) (h := h) (by rw [drop])
        rw [drop] at last
        obtain ⟨zeroed, result, loses⟩ := ih e₁ (h :: found)
        refine ⟨h :: zeroed, by rw [result]; simp, ?_, ?_, ?_⟩
        · exact List.nodup_cons.2 ⟨fun again => loses.before h again last.2, loses.nodup⟩
        · exact List.forall_mem_cons.2 ⟨last.1, fun k hk spent => loses.before k hk (kept k spent)⟩
        · exact List.forall_mem_cons.2 ⟨last.2.dropAll, loses.after⟩
      · obtain ⟨zeroed, result, loses⟩ := ih e₁ found
        exact ⟨zeroed, result, loses.nodup, fun k hk spent => loses.before k hk (kept k spent),
          loses.after⟩

theorem Engine.losesLast_dispose (e : Engine) (h : Handle) :
    e.LosesLast (e.dispose h).1 (e.dispose h).2 := by
  rw [Engine.dispose]
  split
  · rename_i o found
    split
    · exact Engine.losesLast_nil
    · obtain ⟨zeroed, result, loses⟩ := ((e.updateObject h Object.release).finalize h
        o).losesLast_dropAll [] o.payload.owned
      rw [List.reverse_nil, List.nil_append] at result
      dsimp only
      rw [result]
      refine ⟨loses.nodup, fun k hk spent => loses.before k hk ?_, fun k hk =>
        (loses.after k hk).retire⟩
      rw [Engine.heap_finalize]
      exact spent.update fun _ => Int.le_refl _
  · exact Engine.losesLast_nil

/-! ### The queue of a release -/

theorem Engine.exists_worksOff (e : Engine) :
    ∃ joined ended, e.WorksOff joined ended e.workOff := by
  fun_induction Engine.workOff e with
  | case1 e queue => exact ⟨[], [], .done queue⟩
  | case2 e h rest queue zeroed e' step ih =>
      obtain ⟨joined, ended, goesOn⟩ := ih
      exact ⟨zeroed ++ joined, e.taken h ++ ended, .turn queue step goesOn⟩

theorem Engine.WorksOff.empties (loop : e.WorksOff joined ended e') : e'.work.waiting = [] := by
  induction loop with
  | done queue => exact queue
  | turn _ _ _ ih => exact ih

/-- What joins the queue loses its last reference, and does so once. -/
theorem Engine.WorksOff.losesLast (loop : e.WorksOff joined ended e') :
    e.LosesLast joined e' ∧ ∀ k, e.heap.Spent k → e'.heap.Spent k := by
  induction loop with
  | done _ => exact ⟨Engine.losesLast_nil, fun _ => id⟩
  | @turn e e₁ e'' h rest zeroed joined ended queue step goesOn ih =>
      obtain ⟨later, keeps⟩ := ih
      have first := (e.doing { e.work with waiting := rest }).losesLast_dispose h
      have kept (k : Handle) (spent : e.heap.Spent k) : (e₁.join zeroed).heap.Spent k := by
        have disposed := Heap.Spent.dispose (e := e.doing { e.work with waiting := rest })
          (h := h) spent
        rw [step] at disposed
        exact disposed
      rw [step] at first
      have apart (k : Handle) (hk : k ∈ zeroed) (again : k ∈ joined) : False :=
        later.before k again (first.after k hk)
      refine ⟨⟨?_, ?_, ?_⟩, fun k spent => keeps k (kept k spent)⟩
      · exact List.nodup_append'.2 ⟨first.nodup, later.nodup, apart⟩
      · intro k hk
        rcases List.mem_append.1 hk with hk | hk
        · exact first.before k hk
        · exact fun spent => later.before k hk (kept k spent)
      · intro k hk
        rcases List.mem_append.1 hk with hk | hk
        · exact keeps k (first.after k hk)
        · exact later.after k hk

/-- The payloads are taken in the order of the queue. -/
theorem Engine.WorksOff.ended_sublist (loop : e.WorksOff joined ended e') :
    ended.Sublist (e.work.waiting ++ joined) := by
  induction loop with
  | done _ => exact List.nil_sublist _
  | @turn e e₁ e'' h rest zeroed joined ended queue step goesOn ih =>
      have work := (e.doing { e.work with waiting := rest }).work_dispose h
      rw [step] at work
      have joins : (e₁.join zeroed).work.waiting = rest ++ zeroed := by
        show enqueue e₁.work.waiting zeroed = rest ++ zeroed
        rw [enqueue_eq_append, work]
        rfl
      have taken : (e.taken h).Sublist [h] := by
        rw [Engine.taken]
        split
        · exact .refl _
        · exact List.nil_sublist _
      rw [joins, List.append_assoc] at ih
      rw [queue]
      exact taken.append ih

/-- A release that takes the last reference on an object starts a drain that ends. -/
theorem Engine.drainsOnce (rested : e.Rested) (spent : e.heap.Spent h) : e.DrainsOnce h := by
  obtain ⟨joined, ended, loop⟩ := ((e.join [h]).setDraining true).exists_worksOff
  obtain ⟨waiting, draining⟩ := rested
  have queue : ((e.join [h]).setDraining true).work.waiting = [h] := by
    show enqueue e.work.waiting [h] = [h]
    rw [enqueue_eq_append, waiting, List.nil_append]
  have begun : (e.join [h]).work.draining = false := draining
  have sublist := loop.ended_sublist
  have nodup : (h :: joined).Nodup :=
    List.nodup_cons.2 ⟨fun again => loop.losesLast.1.before h again spent, loop.losesLast.1.nodup⟩
  rw [queue] at sublist
  refine ⟨joined, ended, _, loop, ?_, loop.empties, nodup, nodup.sublist sublist, sublist⟩
  rw [Engine.queueZero]
  simp only [begun, Bool.false_eq_true, if_false]

/-! ### The stack of a scan -/

theorem Heap.nodup_seeds : H.seeds.Nodup :=
  H.nodup_listed.sublist (List.filter_sublist.map _)

theorem Heap.Tidy.scansOnce (tidy : H.Tidy) : H.ScansOnce := by
  obtain ⟨S, pushed, linked, scan, loop, nodup, fresh, reached⟩ := tidy.scan_eq
  have seeds (k : Handle) : k ∈ H.enlist.seeds ↔ H.Rooted k := by
    rw [Heap.enlist_eq tidy]
    exact Heap.mem_seeds_paint tidy
  refine ⟨pushed, S, loop, ?_, ?_, seeds, scan, linked⟩
  · refine List.nodup_append'.2 ⟨nodup, List.nodup_reverse.2 Heap.nodup_seeds, ?_⟩
    exact fun k hk again => fresh k hk (List.mem_reverse.1 again)
  · intro k hk
    rcases List.mem_append.1 hk with hk | hk
    · exact (reached k hk).counted.isLive
    · exact ((seeds k).1 (List.mem_reverse.1 hk)).counted.isLive

end

/-- Whatever the heap, the drain that a release starts ends: if the release takes the last
reference from a count, or if the host gives back on the bridge the only reference that is
counted. On every heap as there are between two operations a scan ends too. -/
theorem drains_and_scans_end :
    (∀ (e : Engine) (h : Handle), e.Rested →
      (∀ e', e.dropReference h = (true, e') →
        e.releaseReference h = e'.queueZero h ∧ e'.DrainsOnce h) ∧
      (∀ o, e.heap.object? h = some o → o.count = 1 →
        e.relinquish (.reference h) = (0, (e.relinquishedLast h).queueZero h) ∧
          (e.relinquishedLast h).DrainsOnce h)) ∧
    ∀ H : Heap, H.Tidy → H.ScansOnce := by
  refine ⟨fun e h rested => ⟨fun e' last => ?_, fun o found one => ?_⟩,
    fun H => Heap.Tidy.scansOnce⟩
  · have work := e.work_dropReference h
    have spent := (Engine.spent_of_last (e := e) (h := h) (by rw [last])).2
    rw [last] at work spent
    refine ⟨by rw [Engine.releaseReference, last], Engine.drainsOnce ?_ spent⟩
    rw [Engine.Rested, work]
    exact rested
  · have zero : wrapCount (o.count - 1) = 0 := by
      rw [one]
      rfl
    have exact : e.checkCount (o.count - 1) = e := by
      rw [Engine.checkCount, one, if_pos (by decide)]
    refine ⟨?_, Engine.drainsOnce rested fun o' after => ?_⟩
    · simp only [Engine.relinquish, Value.handle?, found, zero, exact, Engine.afterRelinquish,
        if_true]
      rfl
    · rw [Engine.relinquishedLast, Engine.heap_updateObject, Heap.object?_update, if_pos rfl,
        found] at after
      obtain rfl := Option.some.inj after
      exact Int.le_refl 0

/-- Two arrays that refer to each other, the first also twice to the second, to itself, to
a parked header and to a string. The first counts one reference, which is fewer than there
are on it, the second as many as there are, and the string one more. -/
def tangled : Engine where
  heap :=
    { slots := #[
        .live (Object.new .array (.array .null
          #[.reference 1, .reference 1, .reference 0, .reference 2, .reference 3])),
        .live { Object.new .array (.array .null #[.reference 0, .reference 1]) with count := 3 },
        .parked { (Object.new .string .released) with adopted := true, freed := true },
        .live { Object.new .string (.string "s") with count := 2 }]
      liveCount := 3
      parkedCount := 1
      bytes := 409 }

theorem drains_and_scans_end_tangled :
    (∃ e', tangled.dropReference 0 = (true, e') ∧ e'.DrainsOnce 0) ∧
      (tangled.relinquishedLast 0).DrainsOnce 0 ∧ tangled.heap.ScansOnce := by
  obtain ⟨drains, scans⟩ := drains_and_scans_end
  obtain ⟨released, relinquished⟩ := drains tangled 0 ⟨rfl, rfl⟩
  have tidy : tangled.heap.Tidy := by
    intro h
    match h with
    | 0 => exact ⟨⟨rfl, rfl⟩, rfl⟩
    | 1 => exact ⟨⟨rfl, rfl⟩, rfl⟩
    | 2 => exact ⟨⟨rfl, rfl⟩, rfl, rfl⟩
    | 3 => exact ⟨⟨rfl, rfl⟩, rfl⟩
    | _ + 4 => trivial
  exact ⟨⟨_, rfl, (released _ rfl).2⟩, (relinquished _ rfl rfl).2, scans _ tidy⟩

end CountedHeap
