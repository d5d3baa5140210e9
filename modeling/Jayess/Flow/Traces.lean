import Mathlib.Data.List.Nodup
import Mathlib.Data.List.Infix
import Mathlib.Algebra.BigOperators.Group.List.Basic
import Mathlib.Tactic.Ring

/-! # Sets of traces -/

namespace Flow

universe u

variable {ε : Type u}

abbrev Traces (ε : Type u) := List (List ε)

namespace Traces

def seq (first second : Traces ε) : Traces ε :=
  first.flatMap fun trace => second.map (trace ++ ·)

def choice (left right : ε) (first second : Traces ε) : Traces ε :=
  first.map (left :: ·) ++ second.map (right :: ·)

def total (traces : Traces ε) : Nat := (traces.map List.length).sum

section Seq

variable {first second third : Traces ε} {trace : List ε}

@[simp] theorem mem_seq :
    trace ∈ seq first second ↔ ∃ before ∈ first, ∃ after ∈ second, before ++ after = trace := by
  simp [seq]

@[simp] theorem nil_seq : seq [[]] second = second := by simp [seq]

@[simp] theorem seq_nil : seq first [[]] = first := by
  induction first with
  | nil => rfl
  | cons trace rest ih =>
      rw [seq, List.flatMap_cons, List.map_singleton, List.append_nil, List.singleton_append]
      exact congrArg (trace :: ·) ih

theorem seq_assoc : seq (seq first second) third = seq first (seq second third) := by
  induction first with
  | nil => rfl
  | cons trace rest ih =>
      have hcons : ∀ others : Traces ε,
          seq (trace :: rest) others = others.map (trace ++ ·) ++ seq rest others :=
        fun others => by simp [seq]
      rw [hcons, hcons, ← ih]
      simp [seq, List.flatMap_map, List.map_flatMap, Function.comp_def]

theorem length_seq : (seq first second).length = first.length * second.length := by
  simp [seq, List.length_flatMap]

@[simp] theorem total_append : total (first ++ second) = total first + total second := by
  simp [total]

@[simp] theorem total_nil : total ([] : Traces ε) = 0 := rfl

theorem total_cons : total (trace :: first) = trace.length + total first := by
  simp [total]

theorem total_map_append :
    total (first.map (trace ++ ·)) = first.length * trace.length + total first := by
  induction first with
  | nil => simp
  | cons head rest ih =>
      rw [List.map_cons, total_cons, total_cons, ih, List.length_append, List.length_cons]
      ring

theorem total_map_cons {event : ε} :
    total (first.map (event :: ·)) = first.length + total first := by
  have hmap := @total_map_append ε first [event]
  simpa using hmap

theorem total_seq :
    total (seq first second) = second.length * total first + first.length * total second := by
  induction first with
  | nil => simp [seq]
  | cons trace rest ih =>
      have hcons : seq (trace :: rest) second = second.map (trace ++ ·) ++ seq rest second := by
        simp [seq]
      rw [hcons, total_append, total_map_append, ih, total_cons, List.length_cons]
      ring

theorem length_le_total (hnonempty : ∀ trace ∈ first, trace ≠ []) :
    first.length ≤ total first := by
  induction first with
  | nil => simp
  | cons trace rest ih =>
      have hpos : 0 < trace.length := List.length_pos_iff.mpr (hnonempty trace (by simp))
      have hrest := ih fun other hother => hnonempty other (by simp [hother])
      rw [total_cons, List.length_cons]
      omega

end Seq

structure Deterministic (traces : Traces ε) : Prop where
  nodup : traces.Nodup
  prefix_eq : ∀ trace ∈ traces, ∀ other ∈ traces, trace <+: other → trace = other

namespace Deterministic

variable {first second : Traces ε}

theorem nil : Deterministic ([] : Traces ε) := ⟨List.nodup_nil, by simp⟩

theorem singleton (trace : List ε) : Deterministic [trace] :=
  ⟨List.nodup_singleton trace, by simp⟩

theorem append_inj (hfirst : Deterministic first) {trace other after after' : List ε}
    (htrace : trace ∈ first) (hother : other ∈ first)
    (hle : trace ++ after <+: other ++ after') :
    trace = other ∧ after <+: after' := by
  have hcut : trace <+: other ∨ other <+: trace := by
    have hlong : trace <+: other ++ after' := (List.prefix_append trace after).trans hle
    exact List.prefix_or_prefix_of_prefix hlong (List.prefix_append other after')
  have heq : trace = other := by
    rcases hcut with hcut | hcut
    · exact hfirst.prefix_eq trace htrace other hother hcut
    · exact (hfirst.prefix_eq other hother trace htrace hcut).symm
  subst heq
  exact ⟨rfl, (List.prefix_append_right_inj trace).mp hle⟩

theorem seq (hfirst : Deterministic first) (hsecond : Deterministic second) :
    Deterministic (Traces.seq first second) := by
  constructor
  · rw [Traces.seq, List.nodup_flatMap]
    constructor
    · exact fun trace _ => hsecond.nodup.map (List.append_right_injective trace)
    · refine hfirst.nodup.imp_of_mem fun {trace other} htrace hother hne => ?_
      refine List.disjoint_left.mpr ?_
      intro whole hwhole hwhole'
      obtain ⟨after, -, rfl⟩ := List.mem_map.mp hwhole
      obtain ⟨after', -, heq⟩ := List.mem_map.mp hwhole'
      have hle : trace ++ after <+: other ++ after' := by rw [heq]
      exact hne (hfirst.append_inj htrace hother hle).1
  · intro trace htrace other hother hle
    obtain ⟨before, hbefore, after, hafter, rfl⟩ := mem_seq.mp htrace
    obtain ⟨before', hbefore', after', hafter', rfl⟩ := mem_seq.mp hother
    obtain ⟨rfl, hrest⟩ := hfirst.append_inj hbefore hbefore' hle
    rw [hsecond.prefix_eq after hafter after' hafter' hrest]

theorem choice {left right : ε} (hne : left ≠ right) (hfirst : Deterministic first)
    (hsecond : Deterministic second) : Deterministic (Traces.choice left right first second) := by
  constructor
  · rw [Traces.choice, List.nodup_append]
    refine ⟨hfirst.nodup.map List.cons_injective, hsecond.nodup.map List.cons_injective, ?_⟩
    intro trace htrace other hother heq
    obtain ⟨rest, -, rfl⟩ := List.mem_map.mp htrace
    obtain ⟨rest', -, rfl⟩ := List.mem_map.mp hother
    exact hne (List.cons.inj heq).1
  · intro trace htrace other hother hle
    simp only [Traces.choice, List.mem_append, List.mem_map] at htrace hother
    rcases htrace with ⟨rest, hrest, rfl⟩ | ⟨rest, hrest, rfl⟩ <;>
      rcases hother with ⟨rest', hrest', rfl⟩ | ⟨rest', hrest', rfl⟩ <;>
      rw [List.cons_prefix_cons] at hle
    · rw [hfirst.prefix_eq rest hrest rest' hrest' hle.2]
    · exact absurd hle.1 hne
    · exact absurd hle.1.symm hne
    · rw [hsecond.prefix_eq rest hrest rest' hrest' hle.2]

theorem total_eq (hfirst : Deterministic first) (hsecond : Deterministic second)
    (hmem : ∀ trace, trace ∈ first ↔ trace ∈ second) : total first = total second := by
  have hperm : first.Perm second := (List.perm_ext_iff_of_nodup hfirst.nodup hsecond.nodup).mpr hmem
  exact (hperm.map List.length).sum_eq

end Deterministic

/-- Two determined programs: the traces are those of the reference, or strictly longer in total where
they are not. -/
structure Lengthens (exact : Bool) (reference traces : Traces ε) : Prop where
  same : exact = true → reference = traces
  nonempty : 0 < reference.length
  length_le : reference.length ≤ traces.length
  total_le : total reference ≤ total traces
  total_lt : exact = false → total reference < total traces
  reference : Deterministic reference
  traces : Deterministic traces

namespace Lengthens

variable {exact exact' : Bool} {first second first' second' : Traces ε}

theorem refl {traces : Traces ε} (hne : traces ≠ []) (htraces : Deterministic traces) :
    Lengthens true traces traces :=
  ⟨fun _ => rfl, List.length_pos_iff.mpr hne, le_rfl, le_rfl, by simp, htraces, htraces⟩

theorem singleton (trace : List ε) : Lengthens true [trace] [trace] :=
  .refl (by simp) (.singleton trace)

theorem length_pos (hlengthens : Lengthens exact first first') : 0 < first'.length :=
  hlengthens.nonempty.trans_le hlengthens.length_le

theorem seq (hfirst : Lengthens exact first first') (hsecond : Lengthens exact' second second') :
    Lengthens (exact && exact') (Traces.seq first second) (Traces.seq first' second') where
  same h := by
    obtain ⟨h, h'⟩ := Bool.and_eq_true_iff.mp h
    rw [hfirst.same h, hsecond.same h']
  nonempty := by
    rw [length_seq]
    exact Nat.mul_pos hfirst.nonempty hsecond.nonempty
  length_le := by
    rw [length_seq, length_seq]
    exact Nat.mul_le_mul hfirst.length_le hsecond.length_le
  total_le := by
    rw [total_seq, total_seq]
    exact Nat.add_le_add (Nat.mul_le_mul hsecond.length_le hfirst.total_le)
      (Nat.mul_le_mul hfirst.length_le hsecond.total_le)
  total_lt h := by
    have hleft := Nat.mul_le_mul hsecond.length_le hfirst.total_le
    have hright := Nat.mul_le_mul hfirst.length_le hsecond.total_le
    rw [total_seq, total_seq]
    rcases Bool.and_eq_false_iff.mp h with h | h
    · have hlt : second.length * total first < second'.length * total first' :=
        Nat.mul_lt_mul_of_le_of_lt hsecond.length_le (hfirst.total_lt h) hsecond.length_pos
      exact Nat.add_lt_add_of_lt_of_le hlt hright
    · have hlt : first.length * total second < first'.length * total second' :=
        Nat.mul_lt_mul_of_le_of_lt hfirst.length_le (hsecond.total_lt h) hfirst.length_pos
      exact Nat.add_lt_add_of_le_of_lt hleft hlt
  reference := hfirst.reference.seq hsecond.reference
  traces := hfirst.traces.seq hsecond.traces

theorem after (hsecond : Lengthens exact second second') (hfirst : Lengthens true first first) :
    Lengthens exact (Traces.seq first second) (Traces.seq first second') := by
  simpa using hfirst.seq hsecond

theorem before (hfirst : Lengthens exact first first') (hsecond : Lengthens true second second) :
    Lengthens exact (Traces.seq first second) (Traces.seq first' second) := by
  simpa using hfirst.seq hsecond

theorem choice {left right : ε} (hne : left ≠ right) (hfirst : Lengthens exact first first')
    (hsecond : Lengthens exact' second second') :
    Lengthens (exact && exact') (Traces.choice left right first second)
      (Traces.choice left right first' second') where
  same h := by
    obtain ⟨h, h'⟩ := Bool.and_eq_true_iff.mp h
    rw [hfirst.same h, hsecond.same h']
  nonempty := by
    rw [Traces.choice, List.length_append, List.length_map]
    exact Nat.add_pos_left hfirst.nonempty _
  length_le := by
    simp only [Traces.choice, List.length_append, List.length_map]
    exact Nat.add_le_add hfirst.length_le hsecond.length_le
  total_le := by
    simp only [Traces.choice, total_append, total_map_cons]
    exact Nat.add_le_add (Nat.add_le_add hfirst.length_le hfirst.total_le)
      (Nat.add_le_add hsecond.length_le hsecond.total_le)
  total_lt h := by
    have hlength := hfirst.length_le
    have htotal := hfirst.total_le
    have hlength' := hsecond.length_le
    have htotal' := hsecond.total_le
    simp only [Traces.choice, total_append, total_map_cons]
    rcases Bool.and_eq_false_iff.mp h with h | h
    · have hlt := hfirst.total_lt h
      omega
    · have hlt := hsecond.total_lt h
      omega
  reference := hfirst.reference.choice hne hsecond.reference
  traces := hfirst.traces.choice hne hsecond.traces

theorem insert (hfirst : Lengthens exact first first') (hsecond : Deterministic second)
    (hbusy : ∀ trace ∈ second, trace ≠ []) (hne : second ≠ []) :
    Lengthens false first (Traces.seq first' second) := by
  have hpos : 0 < second.length := List.length_pos_iff.mpr hne
  have htotal : total first < total (Traces.seq first' second) := by
    rw [total_seq]
    calc
      total first ≤ total first' := hfirst.total_le
      _ ≤ second.length * total first' := Nat.le_mul_of_pos_left _ hpos
      _ < second.length * total first' + first'.length * total second :=
        Nat.lt_add_of_pos_right
          (Nat.mul_pos hfirst.length_pos (hpos.trans_le (length_le_total hbusy)))
  refine ⟨by simp, hfirst.nonempty, ?_, htotal.le, fun _ => htotal, hfirst.reference,
    hfirst.traces.seq hsecond⟩
  rw [length_seq]
  exact hfirst.length_le.trans (Nat.le_mul_of_pos_right _ hpos)

theorem mem_iff_iff (hlengthens : Lengthens exact first first') :
    (∀ trace, trace ∈ first' ↔ trace ∈ first) ↔ exact = true := by
  constructor
  · intro hmem
    by_contra hexact
    have hlt := hlengthens.total_lt (by simpa using hexact)
    have heq := hlengthens.traces.total_eq hlengthens.reference hmem
    omega
  · intro hexact trace
    rw [hlengthens.same hexact]

end Lengthens

end Traces

end Flow
