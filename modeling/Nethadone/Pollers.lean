import Nethadone.Capture
import Nethadone.DnsHistory
import Nethadone.Workers

/-!
# Two pollers of one buffer

`attachDnsSniffer` starts `pollDnsResponses`, and `Initialize` calls it for
both directions of the WAN interface: two goroutines read the samples of
one program and write to one table. Which of them gets a sample is up to
the kernel, and their writes come in any order.

It makes no difference to what is recorded (`pollers_record`): every answer
of every sample that reached one of them is written once, and the rows are
those of a single poller. Nor is the table unlike one that a single history
of calls leaves, over the table found at the start (`pollers_history`): the
two pollers' calls, shuffled.
-/

namespace Nethadone

/-- The goroutines, by the direction they were started for. -/
inductive Poller where
  | egress
  | ingress
deriving DecidableEq

/-- When an answer is written, and whether the write fails. -/
structure WriteTime where
  now : Int
  fails : Bool

/-- One round of the loop over the answers. -/
def writeAnswer (D : DnsTable) : RR × WriteTime → DnsTable
  | (.a name addr, t) => if t.fails then D else addDns D name addr t.now
  | (.other, _) => D

abbrev PollerAct := Workers.Act Poller Bytes WriteTime

abbrev Pollers := Workers.State Poller Bytes RR WriteTime DnsTable

/-- The pollers after a schedule, over the table they found. -/
def runPollers (unpack : Bytes → List RR) (D : DnsTable) (acts : List PollerAct) : Pollers :=
  (Workers.State.start D).run unpack writeAnswer acts

section Pollers

open Workers

variable {unpack : Bytes → List RR} {D : DnsTable} {acts : List PollerAct}

/-! ## One of them -/

theorem recordAnswer_eq (e : DnsEvent) (D : DnsTable) (rr : RR) (k : Nat) :
    recordAnswer e D (rr, k) = writeAnswer D (rr, ⟨e.clock k, e.fails k⟩) := by
  cases rr <;> rfl

/-- The schedule in which one poller gets all samples. -/
def alone (unpack : Bytes → List RR) (i : Poller) (events : List DnsEvent) : List PollerAct :=
  events.flatMap fun e => .arrive i e.rawSample :: .take i
    :: (List.range (unpack e.rawSample).length).map fun k => .write i ⟨e.clock k, e.fails k⟩

theorem run_writes (unpack : Bytes → List RR) (i : Poller) (e : DnsEvent) :
    ∀ (ws : List RR) (k : Nat) (s : Pollers), s.hand i = ws →
      (s.run unpack writeAnswer ((List.range' k ws.length).map
          fun k => .write i ⟨e.clock k, e.fails k⟩)).store
        = (ws.zipIdx k).foldl (recordAnswer e) s.store
      ∧ (s.run unpack writeAnswer ((List.range' k ws.length).map
          fun k => .write i ⟨e.clock k, e.fails k⟩)).hand i = []
      ∧ (s.run unpack writeAnswer ((List.range' k ws.length).map
          fun k => .write i ⟨e.clock k, e.fails k⟩)).queue = s.queue
  | [], _, _, hhand => ⟨rfl, hhand, rfl⟩
  | w :: ws, k, s, hhand => by
      have hstep : s.step unpack writeAnswer (.write i ⟨e.clock k, e.fails k⟩)
          = { s with
              hand := Function.update s.hand i ws
              store := writeAnswer s.store (w, ⟨e.clock k, e.fails k⟩)
              log := s.log ++ [(i, w, ⟨e.clock k, e.fails k⟩)] } := by
        simp only [State.step, hhand]
      have hrest := run_writes unpack i e ws (k + 1)
        (s.step unpack writeAnswer (.write i ⟨e.clock k, e.fails k⟩))
        (by rw [hstep]; exact Function.update_self ..)
      rw [List.length_cons, List.range'_succ, List.map_cons, State.run, List.foldl_cons,
        List.zipIdx_cons, List.foldl_cons, recordAnswer_eq]
      rw [hstep] at hrest ⊢
      exact hrest

theorem run_alone (i : Poller) : ∀ (events : List DnsEvent) (s : Pollers), s.queue i = [] →
    s.hand i = [] → (s.run unpack writeAnswer (alone unpack i events)).store
      = pollDnsResponses unpack s.store events
  | [], _, _, _ => rfl
  | e :: events, s, hqueue, hhand => by
      have hstart : (s.step unpack writeAnswer (.arrive i e.rawSample)).step unpack writeAnswer
          (.take i) = { s with
            queue := Function.update (Function.update s.queue i [e.rawSample]) i []
            hand := Function.update s.hand i (unpack e.rawSample) } := by
        simp only [State.step, hqueue, List.nil_append, hhand, Function.update_self]
      obtain ⟨hstore, hhand', hqueue'⟩ := run_writes unpack i e (unpack e.rawSample) 0
        { s with
          queue := Function.update (Function.update s.queue i [e.rawSample]) i []
          hand := Function.update s.hand i (unpack e.rawSample) } (Function.update_self ..)
      rw [← List.range_eq_range'] at hstore hhand' hqueue'
      have hrest := run_alone i events _ (by rw [hqueue']; exact Function.update_self ..) hhand'
      rw [hstore] at hrest
      rw [alone, List.flatMap_cons, State.run, List.foldl_append, List.foldl_cons, List.foldl_cons,
        hstart]
      exact hrest

/-- A poller that gets all samples, and no others in between, is the poller of
the earlier modules. -/
theorem runPollers_alone (unpack : Bytes → List RR) (D : DnsTable) (i : Poller)
    (events : List DnsEvent) : (runPollers unpack D (alone unpack i events)).store
      = pollDnsResponses unpack D events :=
  run_alone i events _ rfl rfl

/-! ## Both of them -/

theorem lookup_writeAnswer (k : Text × Text × Text) (D : DnsTable) (x : RR × WriteTime) :
    ((writeAnswer D x).lookup k).isSome ↔ (D.lookup k).isSome
      ∨ ∃ name addr, x.1 = .a name addr ∧ x.2.fails = false ∧ k = answerKey name addr := by
  obtain ⟨rr, t⟩ := x
  cases rr with
  | other => simp [writeAnswer]
  | a name addr =>
      cases hf : t.fails with
      | true => simp [writeAnswer, hf]
      | false => simp [writeAnswer, hf, lookup_addDns]

theorem mem_logOf {i : Poller} {rr : RR} {log : List (Poller × RR × WriteTime)} :
    rr ∈ logOf i log ↔ ∃ t, (i, rr, t) ∈ log := by
  simp only [logOf, List.mem_map, List.mem_filter, decide_eq_true_eq]
  constructor
  · rintro ⟨⟨j, w, t⟩, ⟨hmem, rfl⟩, rfl⟩
    exact ⟨t, hmem⟩
  · rintro ⟨t, hmem⟩
    exact ⟨(i, rr, t), ⟨hmem, rfl⟩, rfl⟩

theorem fails_of_mem_log (hwrites : ∀ t ∈ tags acts, t.fails = false) {i : Poller} {rr : RR}
    {t : WriteTime} (h : (i, rr, t) ∈ (runPollers unpack D acts).log) : t.fails = false :=
  hwrites t ((log_tags_sublist D acts).subset (List.mem_map.mpr ⟨_, h, rfl⟩))

/-- Once both pollers are through, and if no write failed, the rows of the table
are those it had and those of the answers that arrived. -/
theorem lookup_runPollers (hidle : (runPollers unpack D acts).Idle)
    (hwrites : ∀ t ∈ tags acts, t.fails = false) (k : Text × Text × Text) :
    ((runPollers unpack D acts).store.lookup k).isSome ↔ (D.lookup k).isSome
      ∨ ∃ i, ∃ sample ∈ arrived i acts, ∃ name addr, .a name addr ∈ unpack sample
        ∧ k = answerKey name addr := by
  have hlog : ∀ i rr, (∃ t, (i, rr, t) ∈ (runPollers unpack D acts).log)
      ↔ ∃ sample ∈ arrived i acts, rr ∈ unpack sample := by
    intro i rr
    rw [← mem_logOf, ← List.mem_flatMap]
    exact (logOf_of_idle hidle i).symm ▸ Iff.rfl
  rw [runPollers, store_eq]
  refine (Sweep.foldl_iff (P := fun D : DnsTable => (D.lookup k).isSome)
    (lookup_writeAnswer k)).trans (or_congr_right ?_)
  constructor
  · rintro ⟨⟨rr, t⟩, hmem, name, addr, rfl, -, hk⟩
    obtain ⟨⟨i, e⟩, he, rfl⟩ := List.mem_map.mp hmem
    obtain ⟨sample, hsample, hrr⟩ := (hlog i (.a name addr)).mp ⟨_, he⟩
    exact ⟨i, sample, hsample, name, addr, hrr, hk⟩
  · rintro ⟨i, sample, hsample, name, addr, hrr, hk⟩
    obtain ⟨t, ht⟩ := (hlog i (.a name addr)).mpr ⟨sample, hsample, hrr⟩
    exact ⟨(.a name addr, t), List.mem_map_of_mem ht, name, addr, rfl,
      fails_of_mem_log hwrites ht, hk⟩

/-! ## Their history -/

/-- The call a write makes, when it succeeds. -/
def callOf : Poller × RR × WriteTime → Option (Poller × DnsCall)
  | (i, .a name addr, t) => if t.fails then none else some (i, ⟨name, addr, t.now⟩)
  | (_, .other, _) => none

def callsOf (log : List (Poller × RR × WriteTime)) : List (Poller × DnsCall) :=
  log.filterMap callOf

def RR.answer : RR → Option (Text × RecordIP)
  | .a name addr => some (name, addr)
  | .other => none

/-- What a poller recorded, in order. -/
def answersBy (i : Poller) (calls : List (Poller × DnsCall)) : List (Text × RecordIP) :=
  (calls.filter fun c => c.1 = i).map fun c => (c.2.domain, c.2.addr)

theorem answersBy_cons (i j : Poller) (c : DnsCall) (calls : List (Poller × DnsCall)) :
    answersBy i ((j, c) :: calls)
      = if j = i then (c.domain, c.addr) :: answersBy i calls else answersBy i calls := by
  by_cases hj : j = i <;> simp [answersBy, hj]

theorem callsOf_other (i : Poller) (t : WriteTime) (log : List (Poller × RR × WriteTime)) :
    callsOf ((i, .other, t) :: log) = callsOf log := rfl

theorem callsOf_a (i : Poller) (name : Text) (addr : RecordIP) (t : WriteTime)
    (log : List (Poller × RR × WriteTime)) : callsOf ((i, .a name addr, t) :: log)
      = if t.fails then callsOf log else (i, ⟨name, addr, t.now⟩) :: callsOf log := by
  unfold callsOf
  rw [List.filterMap_cons, callOf]
  cases t.fails <;> rfl

theorem foldl_writeAnswer : ∀ (log : List (Poller × RR × WriteTime)) (D : DnsTable),
    (log.map Prod.snd).foldl writeAnswer D
      = ((callsOf log).map Prod.snd).foldl (fun D c => addDns D c.domain c.addr c.now) D
  | [], _ => rfl
  | (i, .other, t) :: log, D => foldl_writeAnswer log D
  | (i, .a name addr, t) :: log, D => by
      rw [List.map_cons, List.foldl_cons, foldl_writeAnswer log, callsOf_a, writeAnswer]
      cases t.fails <;> rfl

theorem now_of_callOf {e : Poller × RR × WriteTime} {c : Poller × DnsCall}
    (h : callOf e = some c) : c.2.now = e.2.2.now := by
  obtain ⟨i, rr, t⟩ := e
  cases rr with
  | other => cases h
  | a name addr =>
      have hcall : (if t.fails then none else some (i, (⟨name, addr, t.now⟩ : DnsCall))) = some c :=
        h
      split at hcall
      · cases hcall
      · obtain rfl := Option.some.inj hcall
        rfl

theorem clockForward_callsOf {log : List (Poller × RR × WriteTime)}
    (h : (log.map fun e => e.2.2).Pairwise fun t t' => t.now ≤ t'.now) :
    ClockForward ((callsOf log).map Prod.snd) := by
  rw [List.pairwise_map] at h
  rw [ClockForward, List.pairwise_map, callsOf, List.pairwise_filterMap]
  refine h.imp fun hle c hc c' hc' => ?_
  rw [now_of_callOf hc, now_of_callOf hc']
  exact hle

theorem answersBy_callsOf (i : Poller) : ∀ {log : List (Poller × RR × WriteTime)},
    (∀ e ∈ log, e.2.2.fails = false) →
      answersBy i (callsOf log) = (logOf i log).filterMap RR.answer
  | [], _ => rfl
  | (j, rr, t) :: log, h => by
      obtain ⟨hfails, hrest⟩ := List.forall_mem_cons.mp h
      have ih := answersBy_callsOf i hrest
      have hfails : t.fails = false := hfails
      rw [logOf_cons]
      cases rr with
      | other =>
          rw [callsOf_other, ih]
          split <;> rfl
      | a name addr =>
          rw [callsOf_a, hfails, if_neg (by decide), answersBy_cons, ih]
          split <;> rfl

end Pollers

/-- However the samples are divided between the two pollers and their writes
come between one another: once both are through, each has written the
answers of its samples once and in order, and the table has the rows that a
single poller of the same samples leaves. -/
theorem pollers_record (unpack : Bytes → List RR) (D : DnsTable) (acts : List PollerAct)
    (hidle : (runPollers unpack D acts).Idle)
    (hwrites : ∀ t ∈ Workers.tags acts, t.fails = false) :
    (∀ i, Workers.logOf i (runPollers unpack D acts).log
        = (Workers.arrived i acts).flatMap unpack)
      ∧ ∀ events : List DnsEvent, (∀ e ∈ events, ∀ k, e.fails k = false) →
          (∀ sample, (∃ e ∈ events, e.rawSample = sample)
            ↔ ∃ i, sample ∈ Workers.arrived i acts) →
          ∀ k, ((runPollers unpack D acts).store.lookup k).isSome
            ↔ ((pollDnsResponses unpack D events).lookup k).isSome := by
  refine ⟨Workers.logOf_of_idle hidle, fun events hevents hsame k => ?_⟩
  rw [lookup_runPollers hidle hwrites, lookup_pollDnsResponses]
  refine or_congr_right ⟨?_, ?_⟩
  · rintro ⟨i, sample, hsample, name, addr, hrr, hk⟩
    obtain ⟨e, he, rfl⟩ := (hsame sample).mpr ⟨i, hsample⟩
    obtain ⟨j, hj⟩ := List.getElem?_of_mem hrr
    exact ⟨e, he, name, addr, ⟨j, hj, hevents e he j⟩, hk⟩
  · rintro ⟨e, he, name, addr, ⟨j, hj, -⟩, hk⟩
    obtain ⟨i, hsample⟩ := (hsame e.rawSample).mp ⟨e, he, rfl⟩
    exact ⟨i, e.rawSample, hsample, name, addr, List.mem_of_getElem? hj, hk⟩

/-- A history of calls over a table found on disk. -/
def replayOver (D : DnsTable) (calls : List DnsCall) : DnsTable :=
  calls.foldl (fun D c => addDns D c.domain c.addr c.now) D

/-- Every schedule of the two pollers in which the clock does not go back leaves,
over whatever table they found, the table of one history of `AddDns` calls,
their clock going forward; and when both are through and no write failed,
it is a shuffle of their own histories: each poller's part is the A records
of its samples, in order. -/
theorem pollers_history (unpack : Bytes → List RR) (D : DnsTable) (acts : List PollerAct)
    (hclock : (Workers.tags acts).Pairwise fun t t' => t.now ≤ t'.now) :
    ∃ calls : List (Poller × DnsCall), ClockForward (calls.map Prod.snd)
      ∧ (runPollers unpack D acts).store = replayOver D (calls.map Prod.snd)
      ∧ ((runPollers unpack D acts).Idle →
          (∀ t ∈ Workers.tags acts, t.fails = false) → ∀ i, answersBy i calls
            = ((Workers.arrived i acts).flatMap unpack).filterMap RR.answer) := by
  refine ⟨callsOf (runPollers unpack D acts).log,
    clockForward_callsOf (hclock.sublist (Workers.log_tags_sublist _ acts)), ?_,
    fun hidle hwrites i => ?_⟩
  · rw [replayOver, ← foldl_writeAnswer]
    exact Workers.store_eq _ acts
  · rw [answersBy_callsOf i fun e he => fails_of_mem_log hwrites he]
    exact congrArg (List.filterMap RR.answer) (Workers.logOf_of_idle hidle i)

/-! ## One response, seen twice -/

/-- Both pollers get the same response with two addresses, and write in turns. -/
def seenTwice : List PollerAct :=
  [.arrive .egress (redditResponse 2), .arrive .ingress (redditResponse 2), .take .ingress,
    .write .ingress ⟨0, false⟩, .take .egress, .write .egress ⟨0, false⟩,
    .write .egress ⟨second, false⟩, .write .ingress ⟨second, false⟩]

theorem arrived_seenTwice (i : Poller) : Workers.arrived i seenTwice = [redditResponse 2] := by
  cases i <;> rfl

theorem idle_seenTwice (D : DnsTable) : (runPollers (unpackReddit 2) D seenTwice).Idle := by
  intro i
  cases i <;> exact ⟨rfl, rfl⟩

theorem pollers_record_seenTwice :
    (∀ i, Workers.logOf i (runPollers (unpackReddit 2) KeyedTable.empty seenTwice).log
        = (Workers.arrived i seenTwice).flatMap (unpackReddit 2))
      ∧ ∀ k, ((runPollers (unpackReddit 2) KeyedTable.empty seenTwice).store.lookup k).isSome
        ↔ ((pollDnsResponses (unpackReddit 2) KeyedTable.empty
            [DnsEvent.at (redditResponse 2) 0]).lookup k).isSome := by
  obtain ⟨hlog, hrows⟩ := pollers_record (unpackReddit 2) KeyedTable.empty seenTwice
    (idle_seenTwice _) (by decide)
  refine ⟨hlog, hrows [DnsEvent.at (redditResponse 2) 0] (by simp [DnsEvent.at]) fun sample => ?_⟩
  simp only [arrived_seenTwice, List.mem_singleton, exists_eq_left]
  exact ⟨fun h => ⟨.egress, h.symm⟩, fun ⟨_, h⟩ => h.symm⟩

theorem pollers_history_seenTwice :
    ∃ calls : List (Poller × DnsCall), ClockForward (calls.map Prod.snd)
      ∧ (runPollers (unpackReddit 2) redditDns seenTwice).store
        = replayOver redditDns (calls.map Prod.snd)
      ∧ ∀ i, answersBy i calls
        = ((Workers.arrived i seenTwice).flatMap (unpackReddit 2)).filterMap RR.answer := by
  obtain ⟨calls, hclock, hstore, hby⟩ :=
    pollers_history (unpackReddit 2) redditDns seenTwice (by decide)
  exact ⟨calls, hclock, hstore, hby (idle_seenTwice _) (by decide)⟩

end Nethadone
