import Nethadone.Daemon
import Nethadone.Trace

/-!
# How fresh the attached program is

The rules follow three tables and the date; a rebuild follows changes of
the policy table alone. After a completed tick the attached program
therefore enforces the policy table as it is now, with the glob groups,
DNS answers and date of the last tick that changed a row
(`fresh_since_last_change`). A restarted process enforces nothing of what
it found until such a tick comes (`restart_last_change`).
-/

namespace Nethadone

section Runs

variable {glob : Text → Text → Bool} {ord : RowOrder} {cfg : Config}

/-! ## After a restart -/

def lastChange (cfg : Config) (T : PolicyTable) (ts : List Tick) : Option Tick :=
  ((Trace.trace (step cfg) T ts).filter fun x => (tick cfg x.2 x.1).2).getLast?.map Prod.snd

theorem lastChange_cons (T : PolicyTable) (t : Tick) (ts : List Tick) :
    lastChange cfg T (t :: ts) = (lastChange cfg (step cfg T t) ts).or
      (if (tick cfg t T).2 then some t else none) := by
  simp only [lastChange, Trace.trace, List.filter_cons]
  split
  · rw [List.getLast?_cons]
    cases ((Trace.trace (step cfg) (step cfg T t) ts).filter
      fun x => (tick cfg x.2 x.1).2).getLast? <;> rfl
  · rw [Option.or_none]

/-- A run of ticks moves the policy table as the table alone would move, and
dates the program by the last change. -/
theorem run_ticks : ∀ {ts : List Tick} {s s' : Dated},
    Run.run (Dated.step glob ord cfg) s (ts.map .tick) = some s' →
      s'.daemon.policies = ts.foldl (step cfg) s.daemon.policies
        ∧ s'.daemon.globs = s.daemon.globs ∧ s'.daemon.dns = s.daemon.dns
        ∧ s'.basis = ((lastChange cfg s.daemon.policies ts).map
            fun t => ⟨s.daemon.globs, s.daemon.dns, t.now⟩).or s.basis
  | [], s, s', h => by
      obtain rfl := Option.some.inj h
      exact ⟨rfl, rfl, rfl, rfl⟩
  | t :: ts, s, s', h => by
      obtain ⟨s₁, h₁, hrest⟩ := Run.run_cons h
      obtain ⟨d, hd, rfl⟩ := Option.map_eq_some_iff.mp h₁
      obtain ⟨hp, hg, hn, hb⟩ := run_ticks hrest
      by_cases hc : (tick cfg t s.daemon.policies).2 = true
      · obtain ⟨hp', hg', hn', -⟩ := step_tick_of_changed hc hd
        rw [hp', hg', hn'] at hb
        refine ⟨by rw [hp, hp', List.foldl_cons], by rw [hg, hg'], by rw [hn, hn'], ?_⟩
        rw [hb, lastChange_cons, if_pos hc]
        simp only [Dated.basisAfter, if_pos hc]
        cases lastChange cfg (step cfg s.daemon.policies t) ts <;> rfl
      · have hstill : step cfg s.daemon.policies t = s.daemon.policies := pollPolicyCheck_still hc
        rw [step_tick_of_not_changed hc] at hd
        obtain rfl := Option.some.inj hd
        refine ⟨by rw [hp, List.foldl_cons, hstill], hg, hn, ?_⟩
        rw [hb, lastChange_cons, if_neg hc, hstill, Option.or_none]
        simp only [Dated.basisAfter, if_neg hc]

end Runs

/-- A process restarted over any tables on disk. As long as no tick has
changed a row the built-in program is attached. From the first such tick
on, the attached program enforces the current tables as of the last one,
which is to say of any instant on the same date. -/
theorem restart_last_change (glob : Text → Text → Bool) (ord : RowOrder) (cfg : Config)
    (T : PolicyTable) (G : GlobTable) (D : DnsTable) (d₀ : Daemon)
    (hstart : connectInitialize T G D = some d₀) (ts : List Tick) (s : Dated)
    (hrun : Run.run (Dated.step glob ord cfg) ⟨d₀, none⟩ (ts.map .tick) = some s) :
    s.daemon.policies = ts.foldl (step cfg) T ∧ s.daemon.globs = G ∧ s.daemon.dns = D
      ∧ (lastChange cfg T ts = none → s.daemon.attached = initialProgram)
      ∧ ∀ t ∈ lastChange cfg T ts, ∀ now, dayOf now = dayOf t.now →
          s.daemon.InSync glob ord now := by
  rw [connectInitialize_eq] at hstart
  obtain rfl := Option.some.inj hstart
  have hstart : Explained glob ord ⟨⟨T, G, D, initialProgram⟩, none⟩ := rfl
  have hexp := hstart.run hrun
  obtain ⟨hp, hg, hn, hb⟩ := run_ticks hrun
  rw [Explained, hb] at hexp
  refine ⟨hp, hg, hn, fun hnone => ?_, fun t ht now hday => ?_⟩
  · rw [hnone] at hexp
    exact hexp
  · rw [Option.mem_def.mp ht] at hexp
    rw [Daemon.InSync, hg, hn, Enforces.congr_day hday]
    exact hexp

theorem restart_reddit_raised :
    ∃ s, Run.run (Dated.step redditGlob RowOrder.stored baseConfig)
          ⟨⟨redditTable, redditGlobs, redditDns, initialProgram⟩, none⟩
          ([busyTick redditClient (5 * minute)].map .tick) = some s
      ∧ s.daemon.policies = [busyTick redditClient (5 * minute)].foldl (step baseConfig) redditTable
      ∧ s.daemon.globs = redditGlobs ∧ s.daemon.dns = redditDns
      ∧ (lastChange baseConfig redditTable [busyTick redditClient (5 * minute)] = none →
          s.daemon.attached = initialProgram)
      ∧ ∀ t ∈ lastChange baseConfig redditTable [busyTick redditClient (5 * minute)],
          ∀ now, dayOf now = dayOf t.now → s.daemon.InSync redditGlob RowOrder.stored now := by
  obtain ⟨s, hs⟩ : ∃ s, Run.run (Dated.step redditGlob RowOrder.stored baseConfig)
      ⟨⟨redditTable, redditGlobs, redditDns, initialProgram⟩, none⟩
      ([busyTick redditClient (5 * minute)].map .tick) = some s :=
    Option.isSome_iff_exists.mp (by decide)
  exact ⟨s, hs, restart_last_change redditGlob RowOrder.stored baseConfig redditTable redditGlobs
    redditDns _ (connectInitialize_eq _ _ _) _ s hs⟩

def maxTable : PolicyTable := KeyedTable.empty.upsert ⟨redditClient.src, redditClient.glob, 60, 0⟩

def replyFrame : Skb where
  protocol := bpfHtons ETH_P_IP
  data := List.replicate 26 0 ++ [151, 101, 1, 140, 192, 168, 0, 20]
  tcClassid := 0

theorem enforces_maxTable_replyFrame {P : Program} {now : Int} (hday : dayOf now = dayOf 0)
    (h : Enforces redditGlob RowOrder.stored P maxTable ⟨redditGlobs, redditDns, now⟩) :
    (throttle P ⟨0, 0⟩ replyFrame).2.1.tcClassid = 0x60 := by
  obtain ⟨rules, Q, hrules, hQ, hsame⟩ := (Enforces.congr_day hday).mp h
  have hrules' : applyPolicies redditGlob RowOrder.stored ReadFaults.none maxTable redditGlobs
      redditDns 0 = some [⟨"192,168,0,20".toList, "151,101,1,140".toList, 60⟩] := by decide
  obtain rfl := Option.some.inj (hrules.symm.trans hrules')
  have hQ' : compile [⟨"192,168,0,20".toList, "151,101,1,140".toList, 60⟩]
      = some [⟨redditServer.word, some (⟨192, 168, 0, 20⟩ : IPv4).word, 0x60⟩] := by decide
  obtain rfl := Option.some.inj (hQ.symm.trans hQ')
  rw [hsame ⟨0, 0⟩ replyFrame (by decide)]
  decide

/-- A client held at the maximum class is not throttled after a restart,
although its policy survived and it is as busy as before. -/
theorem restart_forgets_maximum :
    ∃ s, Run.run (Dated.step redditGlob RowOrder.stored baseConfig)
          ⟨⟨maxTable, redditGlobs, redditDns, initialProgram⟩, none⟩
          [.tick (busyTick redditClient (5 * minute))] = some s
      ∧ ¬s.daemon.InSync redditGlob RowOrder.stored (5 * minute) := by
  have hc : (tick baseConfig (busyTick redditClient (5 * minute)) maxTable).2 ≠ true := by decide
  refine ⟨⟨⟨maxTable, redditGlobs, redditDns, initialProgram⟩, none⟩, ?_, fun h => ?_⟩
  · rw [Run.run, Dated.step, step_tick_of_not_changed hc, Option.map_some, Dated.basisAfter,
      if_neg hc]
    rfl
  · exact absurd (enforces_maxTable_replyFrame (by decide) h) (by decide)

/-! ## Between DNS answers -/

/-- In any run from a process in sync, after every completed tick the attached
program enforces the current policy table with the glob groups, DNS answers
and date of the last tick that changed a row, or of the start; a tick that
changed a row leaves it in sync, one that did not leaves it alone. -/
theorem fresh_since_last_change (glob : Text → Text → Bool) (ord : RowOrder) (cfg : Config)
    (d₀ : Daemon) (now₀ : Int) (hsync : d₀.InSync glob ord now₀) (es : List Event) (s : Dated)
    (hrun : Run.run (Dated.step glob ord cfg) ⟨d₀, some ⟨d₀.globs, d₀.dns, now₀⟩⟩ es = some s)
    (t : Tick) (s' : Dated) (htick : s.step glob ord cfg (.tick t) = some s') :
    (∃ b ∈ s'.basis, Enforces glob ord s'.daemon.attached s'.daemon.policies b
        ∧ (b.globs = s'.daemon.globs → b.dns = s'.daemon.dns → dayOf b.now = dayOf t.now →
            s'.daemon.InSync glob ord t.now))
      ∧ (step cfg s.daemon.policies t ≠ s.daemon.policies → s'.daemon.InSync glob ord t.now)
      ∧ (step cfg s.daemon.policies t = s.daemon.policies → s' = s) := by
  have hdated : ∀ {s : Dated} {e : Event} {s'}, s.basis.isSome →
      s.step glob ord cfg e = some s' → s'.basis.isSome := by
    intro s e s' hs h
    obtain ⟨d', -, rfl⟩ := Option.map_eq_some_iff.mp h
    cases e <;> simp only [Dated.basisAfter]
    · split <;> [rfl; exact hs]
    · exact hs
    · exact hs
  have hstart : Explained glob ord ⟨d₀, some ⟨d₀.globs, d₀.dns, now₀⟩⟩ := hsync
  have hexp := (hstart.run hrun).step htick
  obtain ⟨b, hb⟩ := Option.isSome_iff_exists.mp
    (hdated (Run.invariant (I := fun s => s.basis.isSome) (fun _ _ _ => hdated) hrun rfl) htick)
  rw [Explained, hb] at hexp
  obtain ⟨d', hd', rfl⟩ := Option.map_eq_some_iff.mp htick
  refine ⟨⟨b, hb, hexp, ?_⟩, fun hne => ?_, fun heq => ?_⟩
  · obtain ⟨G, D, now⟩ := b
    rintro rfl rfl hday
    exact (Enforces.congr_day hday).mp hexp
  · exact (step_tick_of_changed (tick_changed_iff_ne.mpr hne) hd').2.2.2
  · have hc : (tick cfg t s.daemon.policies).2 ≠ true := fun hc => tick_changed_iff_ne.mp hc heq
    rw [step_tick_of_not_changed hc] at hd'
    obtain rfl := Option.some.inj hd'
    simp only [Dated.basisAfter, if_neg hc]

def maxDaemon : Daemon := ⟨maxTable, redditGlobs, KeyedTable.empty, []⟩

theorem inSync_maxDaemon : maxDaemon.InSync redditGlob RowOrder.stored 0 :=
  ⟨[], [], by decide, rfl, fun _ _ _ => rfl⟩

def redditAnswer : Event := .addDns "www.reddit.com.".toList (some redditServer) 0

def answeredDaemon : Dated :=
  ⟨⟨maxTable, redditGlobs, redditDns, []⟩, some ⟨redditGlobs, KeyedTable.empty, 0⟩⟩

theorem run_redditAnswer :
    Run.run (Dated.step redditGlob RowOrder.stored baseConfig)
      ⟨maxDaemon, some ⟨maxDaemon.globs, maxDaemon.dns, 0⟩⟩ [redditAnswer]
        = some answeredDaemon := rfl

theorem fresh_after_lowering :
    ∃ s', answeredDaemon.step redditGlob RowOrder.stored baseConfig
          (.tick (idleTick redditClient (5 * minute))) = some s'
      ∧ (∃ b ∈ s'.basis,
          Enforces redditGlob RowOrder.stored s'.daemon.attached s'.daemon.policies b
          ∧ (b.globs = s'.daemon.globs → b.dns = s'.daemon.dns →
              dayOf b.now = dayOf (idleTick redditClient (5 * minute)).now →
              s'.daemon.InSync redditGlob RowOrder.stored
                (idleTick redditClient (5 * minute)).now))
      ∧ (step baseConfig answeredDaemon.daemon.policies (idleTick redditClient (5 * minute))
            ≠ answeredDaemon.daemon.policies →
          s'.daemon.InSync redditGlob RowOrder.stored (idleTick redditClient (5 * minute)).now)
      ∧ (step baseConfig answeredDaemon.daemon.policies (idleTick redditClient (5 * minute))
          = answeredDaemon.daemon.policies → s' = answeredDaemon) := by
  obtain ⟨s', hs'⟩ : ∃ s', answeredDaemon.step redditGlob RowOrder.stored baseConfig
      (.tick (idleTick redditClient (5 * minute))) = some s' :=
    Option.isSome_iff_exists.mp (by decide)
  exact ⟨s', hs', fresh_since_last_change redditGlob RowOrder.stored baseConfig maxDaemon 0
    inSync_maxDaemon [redditAnswer] answeredDaemon run_redditAnswer _ s' hs'⟩

/-- A tick that leaves the client at the maximum does not throttle the address
that was answered since. -/
theorem answer_not_enforced_at_maximum :
    maxDaemon.InSync redditGlob RowOrder.stored 0
      ∧ Run.run (Dated.step redditGlob RowOrder.stored baseConfig)
          ⟨maxDaemon, some ⟨maxDaemon.globs, maxDaemon.dns, 0⟩⟩
          [redditAnswer, .tick (busyTick redditClient (5 * minute))] = some answeredDaemon
      ∧ ¬answeredDaemon.daemon.InSync redditGlob RowOrder.stored (5 * minute) := by
  have hc : (tick baseConfig (busyTick redditClient (5 * minute)) maxTable).2 ≠ true := by decide
  have htick : answeredDaemon.step redditGlob RowOrder.stored baseConfig
      (.tick (busyTick redditClient (5 * minute))) = some answeredDaemon := by
    rw [Dated.step, answeredDaemon, step_tick_of_not_changed hc, Option.map_some, Dated.basisAfter,
      if_neg hc]
  refine ⟨inSync_maxDaemon, ?_, fun h => ?_⟩
  · have hanswer : (⟨maxDaemon, some ⟨maxDaemon.globs, maxDaemon.dns, 0⟩⟩ : Dated).step redditGlob
        RowOrder.stored baseConfig redditAnswer = some answeredDaemon := rfl
    rw [Run.run, hanswer, Option.bind_some, Run.run, htick]
    rfl
  · exact absurd (enforces_maxTable_replyFrame (by decide) h) (by decide)

end Nethadone
