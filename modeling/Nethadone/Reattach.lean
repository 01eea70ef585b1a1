import Nethadone.Exactness

/-!
# Replacing the throttler

`ApplyPolicies` of `handlers/bpf.go`: render, compile, remove the throttle
filters attached to the LAN interface, load the new program, attach it.
Every step but the deletions ends the process when it fails; what is
attached stays attached then, since filters belong to the kernel.

The old filters are cleaned up prior to rebuilding, so the replacement has
two phases: until the cleanup a failure changes nothing, after it a failure
leaves no throttle filter (`apply_outcome`). Filters of other names are
never touched (`others_cleanupThrottler`).
-/

namespace Nethadone

/-- A filter attached under parent 1:0: the name of its BPF program, if it has
one, and the rules it carries. -/
structure Filter where
  bpfName : Option Text
  prog : Program
deriving DecidableEq

def Filter.isThrottle (f : Filter) : Bool := f.bpfName == some "throttle".toList

/-- The steps that end the process when they fail. -/
inductive RebuildStep where
  | createTemp
  | render
  | clang
  | netlink
  | interface
  | listFilters
  | loadSpec
  | loadAndAssign
  | addFilter
deriving DecidableEq

/-- The step comes before the first deletion. -/
def RebuildStep.beforeCleanup : RebuildStep → Bool
  | createTemp | render | clang | netlink | interface | listFilters => true
  | loadSpec | loadAndAssign | addFilter => false

/-- What is attached afterwards, and the step that ended the process if one did. -/
structure Outcome where
  filters : List Filter
  stopped : Option RebuildStep
deriving DecidableEq

/-- The deletions of `cleanupThrottler` over the listed filters. The error of a
deletion is dropped, and the filter stays. -/
def cleanupThrottler (deleteFails : Nat → Bool) : Nat → List Filter → List Filter
  | _, [] => []
  | i, f :: fs =>
      if f.isThrottle && !deleteFails i then cleanupThrottler deleteFails (i + 1) fs
      else f :: cleanupThrottler deleteFails (i + 1) fs

def reattachThrottler (fails : RebuildStep → Bool) (deleteFails : Nat → Bool) (P : Program)
    (fs : List Filter) : Outcome :=
  if fails .netlink then ⟨fs, some .netlink⟩
  else if fails .interface then ⟨fs, some .interface⟩
  else if fails .listFilters then ⟨fs, some .listFilters⟩
  else
    let fs' := cleanupThrottler deleteFails 0 fs
    if fails .loadSpec then ⟨fs', some .loadSpec⟩
    else if fails .loadAndAssign then ⟨fs', some .loadAndAssign⟩
    else if fails .addFilter then ⟨fs', some .addFilter⟩
    else ⟨fs' ++ [⟨some "throttle".toList, P⟩], none⟩

/-- `ApplyPolicies` with `rebuildBpf`: rules that do not compile fail at clang. -/
def rebuildAndReattach (fails : RebuildStep → Bool) (deleteFails : Nat → Bool)
    (rules : List IpPolicy) (fs : List Filter) : Outcome :=
  if fails .createTemp then ⟨fs, some .createTemp⟩
  else if fails .render then ⟨fs, some .render⟩
  else if fails .clang then ⟨fs, some .clang⟩
  else match compile rules with
    | none => ⟨fs, some .clang⟩
    | some P => reattachThrottler fails deleteFails P fs

/-- No deletion of a throttle filter fails. -/
def DeletionsSucceed (deleteFails : Nat → Bool) (fs : List Filter) : Prop :=
  ∀ i f, fs[i]? = some f → f.isThrottle = true → deleteFails i = false

/-! ## The cleanup -/

section Cleanup

variable {deleteFails : Nat → Bool}

theorem others_cleanupThrottler (i : Nat) (fs : List Filter) :
    (cleanupThrottler deleteFails i fs).filter (!·.isThrottle) = fs.filter (!·.isThrottle) := by
  induction fs generalizing i with
  | nil => rfl
  | cons f fs ih =>
      rw [cleanupThrottler]
      split
      · rename_i hdel
        have hthrottle : f.isThrottle = true := (Bool.and_eq_true_iff.mp hdel).1
        rw [ih, List.filter_cons, hthrottle]
        rfl
      · rw [List.filter_cons, List.filter_cons, ih]

theorem throttle_cleanupThrottler {i : Nat} {fs : List Filter}
    (h : ∀ j f, fs[j]? = some f → f.isThrottle = true → deleteFails (i + j) = false) :
    (cleanupThrottler deleteFails i fs).filter (·.isThrottle) = [] := by
  induction fs generalizing i with
  | nil => rfl
  | cons f fs ih =>
      have hrest : (cleanupThrottler deleteFails (i + 1) fs).filter (·.isThrottle) = [] := by
        refine ih fun j f' hj hf' => ?_
        have := h (j + 1) f' hj hf'
        rwa [Nat.add_assoc, Nat.add_comm 1 j]
      rw [cleanupThrottler]
      split
      · exact hrest
      · rename_i hkeep
        cases hf : f.isThrottle with
        | true =>
            have hdel := h 0 f rfl hf
            rw [Nat.add_zero] at hdel
            rw [hf, hdel] at hkeep
            exact absurd rfl hkeep
        | false => rw [List.filter_cons, hf, hrest]; rfl

end Cleanup

/-! ## The whole replacement -/

/-- All that can come of a replacement of the filters `fs`, when the deletions
leave `cleaned`. -/
inductive Replacement (fs cleaned : List Filter) (P : Option Program) : Outcome → Prop where
  | unchanged {s : RebuildStep} (hs : s.beforeCleanup = true) :
      Replacement fs cleaned P ⟨fs, some s⟩
  | removed {s : RebuildStep} (hs : s.beforeCleanup = false) :
      Replacement fs cleaned P ⟨cleaned, some s⟩
  | replaced {Q : Program} (hQ : P = some Q) :
      Replacement fs cleaned P ⟨cleaned ++ [⟨some "throttle".toList, Q⟩], none⟩

section Outcomes

variable (fails : RebuildStep → Bool) (deleteFails : Nat → Bool) (fs : List Filter)

theorem replacement_reattachThrottler (P : Program) :
    Replacement fs (cleanupThrottler deleteFails 0 fs) (some P)
      (reattachThrottler fails deleteFails P fs) := by
  unfold reattachThrottler
  -- one case for each step, in the order of the source
  split
  · exact .unchanged rfl
  split
  · exact .unchanged rfl
  split
  · exact .unchanged rfl
  dsimp only
  split
  · exact .removed rfl
  split
  · exact .removed rfl
  split
  · exact .removed rfl
  · exact .replaced rfl

theorem replacement_rebuildAndReattach (rules : List IpPolicy) :
    Replacement fs (cleanupThrottler deleteFails 0 fs) (compile rules)
      (rebuildAndReattach fails deleteFails rules fs) := by
  unfold rebuildAndReattach
  split
  · exact .unchanged rfl
  split
  · exact .unchanged rfl
  split
  · exact .unchanged rfl
  cases hP : compile rules with
  | none => exact .unchanged rfl
  | some P => exact replacement_reattachThrottler fails deleteFails fs P

end Outcomes

/-- An atomic replacement: one throttle filter with the new rules if it returned,
those from before if it did not, and the other filters either way. -/
def AtomicallyReplaced (rules : List IpPolicy) (fs : List Filter) (o : Outcome) : Prop :=
  (o.stopped = none → ∃ P, compile rules = some P
      ∧ o.filters.filter (·.isThrottle) = [⟨some "throttle".toList, P⟩])
    ∧ (o.stopped ≠ none → ∀ f ∈ fs, f.isThrottle = true → f ∈ o.filters)
    ∧ o.filters.filter (!·.isThrottle) = fs.filter (!·.isThrottle)

/-- Filters of other names stay. A stop before the cleanup changes nothing; if
the deletions succeed, a later stop leaves no throttle filter, and a return
exactly one, with the new rules. -/
theorem apply_outcome (fails : RebuildStep → Bool) (deleteFails : Nat → Bool)
    (rules : List IpPolicy) (fs : List Filter) (o : Outcome)
    (ho : rebuildAndReattach fails deleteFails rules fs = o) :
    o.filters.filter (!·.isThrottle) = fs.filter (!·.isThrottle)
      ∧ (∀ s ∈ o.stopped, s.beforeCleanup = true → o.filters = fs)
      ∧ (DeletionsSucceed deleteFails fs →
          (∀ s ∈ o.stopped, s.beforeCleanup = false → o.filters.filter (·.isThrottle) = [])
          ∧ (o.stopped = none → ∃ P, compile rules = some P
              ∧ o.filters.filter (·.isThrottle) = [⟨some "throttle".toList, P⟩])) := by
  have hclean : DeletionsSucceed deleteFails fs →
      (cleanupThrottler deleteFails 0 fs).filter (·.isThrottle) = [] := fun h =>
    throttle_cleanupThrottler fun j f hj hf => by rw [Nat.zero_add]; exact h j f hj hf
  have hout := replacement_rebuildAndReattach fails deleteFails fs rules
  rw [ho] at hout
  cases hout with
  | unchanged hs =>
      refine ⟨rfl, fun _ _ _ => rfl, fun _ => ⟨fun s' hs' hafter => ?_, fun h => ?_⟩⟩
      · obtain rfl := Option.some.inj hs'
        rw [hs] at hafter
        cases hafter
      · cases h
  | removed hs =>
      refine ⟨others_cleanupThrottler 0 fs, fun s' hs' hbefore => ?_,
        fun hdel => ⟨fun _ _ _ => hclean hdel, fun h => ?_⟩⟩
      · obtain rfl := Option.some.inj hs'
        rw [hs] at hbefore
        cases hbefore
      · cases h
  | replaced hQ =>
      refine ⟨?_, fun s hs => ?_, fun hdel => ⟨fun s hs => ?_, fun _ => ⟨_, hQ, ?_⟩⟩⟩
      · show (cleanupThrottler deleteFails 0 fs ++ [_]).filter _ = _
        rw [List.filter_append, others_cleanupThrottler]
        exact List.append_nil _
      · cases hs
      · cases hs
      · show (cleanupThrottler deleteFails 0 fs ++ [_]).filter _ = _
        rw [List.filter_append, hclean hdel]
        rfl

def monitorFilter : Filter := ⟨some "other".toList, []⟩

def redditRules : List IpPolicy := [⟨"192,168,0,20".toList, "151,101,1,140".toList, 20⟩]

theorem apply_outcome_reddit :
    [monitorFilter, ⟨some "throttle".toList,
        [⟨redditServer.word, some (IPv4.word ⟨192, 168, 0, 20⟩), 0x20⟩]⟩].filter (!·.isThrottle)
        = [monitorFilter]
      ∧ ∃ P, compile redditRules = some P
          ∧ [monitorFilter, ⟨some "throttle".toList,
              [⟨redditServer.word, some (IPv4.word ⟨192, 168, 0, 20⟩), 0x20⟩]⟩].filter
                (·.isThrottle) = [⟨some "throttle".toList, P⟩] := by
  have h := apply_outcome (fun _ => false) (fun _ => false) redditRules
    [monitorFilter, ⟨some "throttle".toList, []⟩]
    ⟨[monitorFilter, ⟨some "throttle".toList,
      [⟨redditServer.word, some (IPv4.word ⟨192, 168, 0, 20⟩), 0x20⟩]⟩], none⟩ (by decide)
  exact ⟨h.1, (h.2.2 fun _ _ _ _ => rfl).2 rfl⟩

/-- The verifier rejects the new program: the old one is gone already. -/
theorem rejected_program_leaves_none :
    rebuildAndReattach (· = .loadAndAssign) (fun _ => false) redditRules
        [⟨some "throttle".toList, []⟩] = ⟨[], some .loadAndAssign⟩
      ∧ ¬AtomicallyReplaced redditRules [⟨some "throttle".toList, []⟩]
        (rebuildAndReattach (· = .loadAndAssign) (fun _ => false) redditRules
          [⟨some "throttle".toList, []⟩]) := by
  have ho : rebuildAndReattach (· = .loadAndAssign) (fun _ => false) redditRules
      [⟨some "throttle".toList, []⟩] = ⟨[], some .loadAndAssign⟩ := by decide
  refine ⟨ho, fun h => ?_⟩
  rw [ho] at h
  exact List.not_mem_nil (h.2.1 (by decide) ⟨some "throttle".toList, []⟩
    (List.mem_singleton.mpr rfl) (by decide))

end Nethadone
