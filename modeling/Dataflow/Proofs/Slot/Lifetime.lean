import Dataflow.Proofs.Slot.Run

/-!
# The lifetime of a slot

A wire that is registered anew gets a slot for as many uses as were announced. Whatever is called
in the meantime, each of these uses gives that slot, nobody else gets it, and registering the wire
again changes nothing. The last of the uses frees the slot, and from then on the wire cannot be
used until it is registered anew (`Allocator.run_lifetime`).
-/

namespace Dataflow.Allocator

variable {κ : Type} {a : Allocator κ} {reserved : List Nat}

/-- The wire that a call is about. -/
def Call.wire? : Call κ → Option κ
  | .register wire _ | .use wire => some wire
  | .reserve => none

variable [DecidableEq κ] {wire : κ} {slot : Slot}

/-- Whether a call uses a wire. -/
def Call.uses (wire : κ) : Call κ → Bool
  | .use other => other = wire
  | .register _ _ | .reserve => false

/-- Whether a call registers a wire that at least one input will use. -/
def Call.registers (wire : κ) : Call κ → Bool
  | .register other consumers => other = wire ∧ 0 < consumers
  | .use _ | .reserve => false

/-- How often a wire is used. -/
def useCount (wire : κ) (calls : List (Call κ)) : Nat :=
  calls.countP (·.uses wire)

/-- A wire has a slot to itself for so many more uses. The next use gives the slot, and registering
the wire again gives it too and changes nothing. No other wire holds the slot, which is neither
reserved nor free, and no call but those about the wire gets it. -/
structure Ledger.Owns (l : Ledger κ) (wire : κ) (slot : Slot) (remaining : Nat) : Prop where
  find?_eq : l.allocator.find? wire = some ⟨slot, remaining⟩
  use_eq : (l.allocator.serve (.use wire)).1 = .ok (some slot)
  register_eq : ∀ consumers,
    l.allocator.serve (.register wire consumers) = (.ok (some slot), l.allocator)
  only : ∀ other hold, l.allocator.find? other = some hold → hold.slot = slot → other = wire
  apart : slot.index ∉ l.reserved ++ l.allocator.free
  serve_ne : ∀ call : Call κ, call.wire? ≠ some wire →
    (l.allocator.serve call).1 ≠ .ok (some slot)

/-! ## What one call does to a wire -/

/-- A registered wire keeps its slot, and each use counts down until the last one. -/
theorem find?_serve_of_some {remaining : Nat} (h : a.Consistent reserved)
    (hwire : a.find? wire = some ⟨slot, remaining⟩) (call : Call κ) :
    (a.serve call).2.find? wire =
      if call.uses wire then
        if remaining ≤ 1 then none else some ⟨slot, remaining - 1⟩
      else some ⟨slot, remaining⟩ := by
  cases call with
  | reserve => exact find?_reserve.trans hwire
  | register other consumers =>
      show (a.register other consumers).2.find? wire = some ⟨slot, remaining⟩
      cases hother : a.find? other with
      | some hold => rw [register_of_find? hother, hwire]
      | none =>
          rcases Nat.eq_zero_or_pos consumers with rfl | hconsumers
          · rw [register_zero hother, hwire]
          · have hne : wire ≠ other := by
              intro heq
              rw [heq, hother] at hwire
              cases hwire
            rw [find?_register wire hother hconsumers, if_neg hne, hwire]
  | use other =>
      cases hother : a.find? other with
      | none =>
          have hne : other ≠ wire := by
            intro heq
            rw [← heq, hother] at hwire
            cases hwire
          simp only [serve, use_of_find?_eq_none hother, Call.uses, hne, decide_false,
            Bool.false_eq_true, if_false, hwire]
      | some hold =>
          obtain ⟨a', huse, -, -, hfind⟩ := use_eq_ok h hother
          simp only [serve, huse, hfind, Call.uses, decide_eq_true_eq]
          by_cases heq : other = wire
          · subst heq
            obtain rfl : hold = ⟨slot, remaining⟩ := Option.some.inj (hother.symm.trans hwire)
            rw [if_pos rfl, if_pos rfl]
          · rw [if_neg (Ne.symm heq), if_neg heq, hwire]

/-- A wire that is not registered stays so until a call registers it. -/
theorem find?_serve_of_none (h : a.Consistent reserved) (hwire : a.find? wire = none)
    {call : Call κ} (hcall : call.registers wire = false) :
    (a.serve call).2.find? wire = none := by
  cases call with
  | reserve => exact find?_reserve.trans hwire
  | register other consumers =>
      show (a.register other consumers).2.find? wire = none
      cases hother : a.find? other with
      | some hold => rw [register_of_find? hother, hwire]
      | none =>
          rcases Nat.eq_zero_or_pos consumers with rfl | hconsumers
          · rw [register_zero hother, hwire]
          · have hne : wire ≠ other := by
              intro heq
              exact (decide_eq_false_iff_not.1 hcall) ⟨heq.symm, hconsumers⟩
            rw [find?_register wire hother hconsumers, if_neg hne, hwire]
  | use other =>
      cases hother : a.find? other with
      | none => simp only [serve, use_of_find?_eq_none hother, hwire]
      | some hold =>
          obtain ⟨a', huse, -, -, hfind⟩ := use_eq_ok h hother
          have hne : wire ≠ other := by
            intro heq
            rw [← heq, hwire] at hother
            cases hother
          simp only [serve, huse, hfind, if_neg hne, hwire]

/-- The last use of a wire frees its slot, and the wire is not registered any more. -/
theorem serve_use_last (h : a.Consistent reserved) (hwire : a.find? wire = some ⟨slot, 1⟩) :
    (a.serve (.use wire)).2.find? wire = none ∧ slot.index ∈ (a.serve (.use wire)).2.free := by
  refine ⟨?_, ?_⟩
  · rw [find?_serve_of_some h hwire, show (Call.use wire).uses wire = true from decide_eq_true rfl]
    rfl
  · have huse : a.use wire =
        .ok (slot, { a with held := a.held.filter (·.1 ≠ wire) }.release slot) := by
      unfold use
      rw [hwire]
      rfl
    simp only [serve, huse]
    exact (insertAscending_perm slot.index a.free).mem_iff.2 List.mem_cons_self

/-- A slot that is handed out next is held by no wire. -/
theorem Consistent.reserve_ne {hold : Hold} (h : a.Consistent reserved)
    (hwire : a.find? wire = some hold) : a.reserve.1 ≠ hold.slot := by
  intro heq
  have hunused : a.reserve.1.index ∉ reserved ++ a.heldSlots := h.isLeast_reserve.1
  rw [heq] at hunused
  exact hunused (List.mem_append_right _ (h.mem_heldSlots hwire))

/-- A wire that holds a slot has it to itself. -/
theorem owns_of_find? {l : Ledger κ} {remaining : Nat} (h : l.allocator.Consistent l.reserved)
    (hwire : l.allocator.find? wire = some ⟨slot, remaining⟩) : l.Owns wire slot remaining where
  find?_eq := hwire
  use_eq := by
    obtain ⟨a', huse, -⟩ := use_eq_ok h hwire
    simp only [serve, huse]
  register_eq consumers := by
    simp only [serve, register_of_find? hwire consumers]
  only other hold hother hslot := h.wire_eq hother hwire hslot
  apart := by
    intro hmem
    have hheld := h.mem_heldSlots hwire
    obtain ⟨-, hrest, hreserved⟩ := List.nodup_append.1 h.nodup
    rcases List.mem_append.1 hmem with hmem | hmem
    · exact hreserved _ hmem _ (List.mem_append_left _ hheld) rfl
    · exact (List.nodup_append.1 hrest).2.2 _ hheld _ hmem rfl
  serve_ne call hcall := by
    intro hanswer
    cases call with
    | reserve =>
        exact h.reserve_ne hwire (Option.some.inj (Except.ok.inj hanswer))
    | register other consumers =>
        have hslot : (l.allocator.register other consumers).1 = some slot :=
          Except.ok.inj hanswer
        cases hother : l.allocator.find? other with
        | some hold =>
            rw [register_of_find? hother] at hslot
            exact hcall (congrArg some (h.wire_eq hother hwire (Option.some.inj hslot)))
        | none =>
            rcases Nat.eq_zero_or_pos consumers with rfl | hconsumers
            · rw [register_zero hother] at hslot
              cases hslot
            · rw [Allocator.register_eq hother hconsumers] at hslot
              exact h.reserve_ne hwire (Option.some.inj hslot)
    | use other =>
        cases hother : l.allocator.find? other with
        | none =>
            simp only [serve, use_of_find?_eq_none hother] at hanswer
            cases hanswer
        | some hold =>
            obtain ⟨a', huse, -⟩ := use_eq_ok h hother
            simp only [serve, huse] at hanswer
            have hslot : hold.slot = slot := Option.some.inj (Except.ok.inj hanswer)
            exact hcall (congrArg some (h.wire_eq hother hwire hslot))

/-! ## What a run does to a wire -/

/-- The uses of a wire add up. -/
theorem useCount_concat (wire : κ) (calls : List (Call κ)) (call : Call κ) :
    useCount wire (calls ++ [call]) =
      useCount wire calls + if call.uses wire then 1 else 0 := by
  rw [useCount, List.countP_append, List.countP_singleton, useCount]

/-- As long as not all announced uses were made, a wire holds the slot that it got for those
that remain. -/
theorem find?_run_of_useCount_lt {calls more : List (Call κ)} {n : Nat}
    (hwire : (run calls).allocator.find? wire = some ⟨slot, n⟩) (hmore : useCount wire more < n) :
    (run (calls ++ more)).allocator.find? wire = some ⟨slot, n - useCount wire more⟩ := by
  induction more using List.reverseRecOn with
  | nil => simpa [useCount] using hwire
  | append_singleton more call ih =>
      rw [useCount_concat] at hmore
      have hbefore := ih (by omega)
      have hconsistent := run_consistent (calls ++ more)
      rw [← List.append_assoc, run_concat, useCount_concat]
      show ((run (calls ++ more)).allocator.serve call).2.find? wire = _
      rw [find?_serve_of_some hconsistent hbefore]
      by_cases huse : call.uses wire
      · rw [if_pos huse] at hmore
        rw [if_pos huse, if_pos huse, if_neg (by omega), Nat.sub_sub]
      · rw [if_neg huse, if_neg huse, Nat.add_zero]

/-- A wire that is not registered stays so as long as no call registers it. -/
theorem find?_run_of_not_registers {calls more : List (Call κ)}
    (hwire : (run calls).allocator.find? wire = none)
    (hmore : ∀ call ∈ more, call.registers wire = false) :
    (run (calls ++ more)).allocator.find? wire = none := by
  induction more using List.reverseRecOn with
  | nil => simpa using hwire
  | append_singleton more call ih =>
      have hbefore := ih fun earlier hearlier => hmore earlier (List.mem_append_left _ hearlier)
      rw [← List.append_assoc, run_concat]
      exact find?_serve_of_none (run_consistent _) hbefore
        (hmore call (List.mem_append_right _ List.mem_cons_self))

/-- In every state that an allocator reaches, a wire that is registered anew for `n > 0` uses gets a
slot. Whatever is called from then on, as long as fewer than `n` uses of the wire were made it has
that slot to itself for the uses that remain: the next use gives the slot, registering the wire
again gives it and changes nothing, and no call about anything else gets it. The `n`-th use frees
the slot, and until a call registers the wire anew the wire is not registered and using it is
refused and changes nothing. -/
theorem run_lifetime (calls : List (Call κ)) (wire : κ) (n : Nat)
    (hnew : (run calls).allocator.isRegistered wire = false) (hn : 0 < n) :
    ∃ slot, ((run calls).allocator.serve (.register wire n)).1 = .ok (some slot) ∧
      ∀ more : List (Call κ),
        (useCount wire more < n →
          (run (calls ++ .register wire n :: more)).Owns wire slot (n - useCount wire more)) ∧
        (useCount wire more + 1 = n →
          slot.index ∈ (run (calls ++ .register wire n :: more ++ [.use wire])).allocator.free ∧
          ∀ later : List (Call κ), (∀ call ∈ later, call.registers wire = false) →
            let after := (run (calls ++ .register wire n :: more ++ .use wire :: later)).allocator
            after.isRegistered wire = false ∧ after.use wire = .error .unregisteredWire ∧
              after.serve (.use wire) = (.error .unregisteredWire, after)) := by
  have hfind : (run calls).allocator.find? wire = none := Option.isNone_iff_eq_none.1 (by
    simpa [isRegistered] using hnew)
  have hregister := register_eq hfind hn
  have hfirst : (run (calls ++ [.register wire n])).allocator.find? wire =
      some ⟨(run calls).allocator.reserve.1, n⟩ := by
    rw [run_concat]
    show ((run calls).allocator.register wire n).2.find? wire = _
    rw [find?_register wire hfind hn, if_pos rfl]
  refine ⟨(run calls).allocator.reserve.1, ?_, fun more => ?_⟩
  · simp only [serve, hregister]
  have hheld : useCount wire more < n →
      (run (calls ++ .register wire n :: more)).allocator.find? wire =
        some ⟨(run calls).allocator.reserve.1, n - useCount wire more⟩ := by
    intro hmore
    rw [List.append_cons]
    exact find?_run_of_useCount_lt hfirst hmore
  refine ⟨fun hmore => owns_of_find? (run_consistent _) (hheld hmore), fun hlast => ?_⟩
  have hbefore := hheld (by omega)
  rw [show n - useCount wire more = 1 by omega] at hbefore
  obtain ⟨hnone, hfree⟩ := serve_use_last (run_consistent _) hbefore
  refine ⟨?_, fun later hlater => ?_⟩
  · rw [run_concat]
    exact hfree
  · intro after
    have hafter : after.find? wire = none := by
      show (run (calls ++ .register wire n :: more ++ .use wire :: later)).allocator.find? wire = _
      rw [List.append_cons _ (Call.use wire)]
      refine find?_run_of_not_registers ?_ hlater
      rw [run_concat]
      exact hnone
    have hrefused := use_of_find?_eq_none hafter
    refine ⟨?_, hrefused, ?_⟩
    · rw [isRegistered, hafter]
      rfl
    · simp only [serve, hrefused]

/-- In a run where `'a'` holds a slot, `'b'` is registered for two uses. One use later it still has
its slot to itself, although `'b'` was registered again; the second use frees the slot, and a third
one is refused. -/
theorem run_lifetime_two :
    (run [.register 'a' 1]).allocator.isRegistered 'b' = false ∧ 0 < 2 ∧
    (run [.register 'a' 1, .register 'b' 2, .use 'b', .register 'b' 5]).Owns 'b' ⟨1⟩ 1 ∧
    1 ∈ (run [.register 'a' 1, .register 'b' 2, .use 'b', .use 'b']).allocator.free ∧
    (run [.register 'a' 1, .register 'b' 2, .use 'b', .use 'b', .reserve]).allocator.use 'b' =
      .error .unregisteredWire := by
  have hnew : (run [.register 'a' 1]).allocator.isRegistered 'b' = false := rfl
  obtain ⟨slot, hslot, hruns⟩ := run_lifetime [.register 'a' 1] 'b' 2 hnew (by decide)
  obtain rfl : slot = ⟨1⟩ := (Option.some.inj (Except.ok.inj hslot)).symm
  obtain ⟨hfree, hended⟩ := (hruns [.use 'b']).2 rfl
  refine ⟨hnew, by decide, (hruns [.use 'b', .register 'b' 5]).1 (by decide), hfree, ?_⟩
  exact (hended [.reserve] (by simp [Call.registers])).2.1

end Dataflow.Allocator
