import OffsetExplorer.Fetch.Deliver
import OffsetExplorer.Fetch.Shards
import OffsetExplorer.Lib.Turns

/-!
# Polling the shards

An iteration looks at each consumer of the fetch once, without waiting and from where the last one stopped,
and if none had anything ready it waits for the next one. `next_shard` is a `usize` that wraps.

* `Consumers`: what each consumer has ready, `next_shard`, and what the polls have returned.
* `Serves`: what librdkafka promises of one consumer; `delivers_of_serves`: so the loop is handed the logs.
* **`sharded_fetches_agree`**: how many shards there are and in which order they answer makes no difference
  to what a complete fetch has collected.
* **`no_shard_starves`**: a shard with something ready is polled within so many iterations.
-/

namespace OffsetExplorer.Fetch

open Machine Turns

/-- What the consumers of a fetch have ready, and what the polls of the loop have returned. -/
abbrev Consumers := Turns.State Polled

/-- The values of a `usize`. -/
def usizeCount : ℕ := 2 ^ 64

/-- What the loop gets of a poll. -/
def seenAs : Option (ℕ × Polled) → Polled
  | some (_, polled) => polled
  | none => .nothing

namespace Loop

variable (c : Loop)

/-- A consumer gets something ready, or an iteration polls. -/
def shardStep : Consumers → Turns.Event Polled → Option Consumers := Turns.step usizeCount c.shardCount

/-- Consumers with nothing to poll. -/
def noneReady : Consumers where
  queues _ := []

/-- Of a shard the loop is handed what its consumer had ready. -/
def ready (shard : ℕ) (events : List (Turns.Event Polled)) : List Polled := events.flatMap (Event.putIn shard)

end Loop

/-- The messages of a partition among the results of polls. -/
def messagesIn (p : ℤ) (results : List Polled) : List BorrowedMessage :=
  results.filterMap fun
    | .message m => if m.partition = p then some m else none
    | _ => none

/-- What librdkafka promises of one consumer: it hands over each of its partitions in the order of the log,
reports the end of one after everything before the end that the plan has worked out, and nothing of others. -/
structure Serves (c : Loop) (assignment : TopicPartitionList) (log : ℤ → List BorrowedMessage)
    (results : List Polled) : Prop where
  inOrder : ∀ p ∈ assignment.map Prod.fst, messagesIn p results <+: log p
  atEnd : ∀ pre post p, results = pre ++ .partitionEof p :: post →
    p ∈ assignment.map Prod.fst ∧ ∀ m ∈ log p, ¬ c.PastEnd m → m ∈ messagesIn p pre
  only : ∀ m, .message m ∈ results → m.partition ∈ assignment.map Prod.fst

variable {c : Loop} {t : Consumers} {events : List (Turns.Event Polled)} {es : List Iteration} {p : ℤ}
  {log : ℤ → List BorrowedMessage} {shard : ℕ}

theorem Loop.mem_working_iff : p ∈ c.working ↔ p ∈ c.active := by
  rw [Loop.mem_active, Loop.working, List.mem_map]
  constructor
  · rintro ⟨⟨q, limit⟩, hmem, rfl⟩
    obtain ⟨hlist, hpos⟩ := List.mem_filter.mp hmem
    have hget := Std.TreeMap.mem_toList_iff_getElem?_eq_some.mp hlist
    refine ⟨?_, ?_⟩
    · rw [Loop.planned, List.mem_toFinset, Std.TreeMap.mem_keys, Std.TreeMap.mem_iff_isSome_getElem?, hget]
      rfl
    · rw [Loop.limit, hget]
      exact of_decide_eq_true hpos
  · rintro ⟨hplanned, hpos⟩
    have hget := c.tabulates_limits.get_mem hplanned
    exact ⟨(p, c.limit p), List.mem_filter.mpr
      ⟨Std.TreeMap.mem_toList_iff_getElem?_eq_some.mpr hget, decide_eq_true hpos⟩, rfl⟩

theorem polledOf_eq_messagesIn (p : ℤ) (es : List Iteration) :
    polledOf p es = messagesIn p (es.map Iteration.polled) := by
  rw [polledOf, messagesOf, messagesIn, List.filterMap_map, ← List.filterMap_eq_filter, List.filterMap_filterMap]
  refine List.filterMap_congr fun e _ => ?_
  rw [Function.comp_apply]
  cases e.polled with
  | message m => simp [Option.guard]
  | partitionEof _ => rfl
  | error _ => rfl
  | nothing => rfl

theorem messagesIn_append (p : ℤ) (results more : List Polled) :
    messagesIn p (results ++ more) = messagesIn p results ++ messagesIn p more := List.filterMap_append

theorem mem_messagesIn {results : List Polled} {m : BorrowedMessage} :
    m ∈ messagesIn p results ↔ .message m ∈ results ∧ m.partition = p := by
  rw [messagesIn, List.mem_filterMap]
  constructor
  · rintro ⟨polled, hmem, heq⟩
    cases polled with
    | message m' =>
      obtain ⟨hp, hm⟩ := Option.ite_none_right_eq_some.mp heq
      cases hm
      exact ⟨hmem, hp⟩
    | partitionEof _ => cases heq
    | error _ => cases heq
    | nothing => cases heq
  · rintro ⟨hmem, hp⟩
    exact ⟨.message m, hmem, if_pos hp⟩

/-- Where all messages of a partition are from one shard, those polled are those polled of that shard. -/
theorem messagesIn_map_seenAs {taken : List (Option (ℕ × Polled))}
    (h : ∀ q m, some (q, .message m) ∈ taken → m.partition = p → q = shard) :
    messagesIn p (taken.map seenAs) = messagesIn p (fromQueue shard taken) := by
  induction taken with
  | nil => rfl
  | cons entry taken ih =>
    have hrest := ih fun q m hmem => h q m (List.mem_cons_of_mem _ hmem)
    have hsplit : fromQueue shard (entry :: taken) = fromQueue shard [entry] ++ fromQueue shard taken :=
      fromQueue_append shard [entry] taken
    rw [List.map_cons, ← List.singleton_append, messagesIn_append, hrest, hsplit, messagesIn_append]
    congr 1
    cases entry with
    | none => rfl
    | some entry =>
      obtain ⟨q, polled⟩ := entry
      by_cases hq : q = shard
      · simp [fromQueue, hq, seenAs]
      · have hnone : fromQueue shard [some (q, polled)] = [] := by simp [fromQueue, hq]
        rw [hnone, seenAs]
        cases polled with
        | message m =>
          have hp : m.partition ≠ p := fun hp => hq (h q m List.mem_cons_self hp)
          simp [messagesIn, hp]
        | partitionEof _ => rfl
        | error _ => rfl
        | nothing => rfl

/-! ## What the loop is handed -/

theorem mem_fromQueue {taken : List (Option (ℕ × Polled))} {polled : Polled} :
    polled ∈ fromQueue shard taken ↔ some (shard, polled) ∈ taken := by
  rw [fromQueue, List.mem_filterMap]
  constructor
  · rintro ⟨entry, hmem, heq⟩
    obtain ⟨⟨q, polled'⟩, hfilter, rfl⟩ := Option.map_eq_some_iff.mp heq
    obtain ⟨rfl, hq⟩ := Option.filter_eq_some_iff.mp hfilter
    rwa [← of_decide_eq_true hq]
  · intro hmem
    exact ⟨_, hmem, by simp⟩

theorem Loop.shardCount_ne_zero (c : Loop) : c.shardCount ≠ 0 :=
  Nat.one_le_iff_ne_zero.mp (fetchShardCount_pos _ _)

theorem fromQueue_extends_ready (h : run c.shardStep Loop.noneReady events = some t) (shard : ℕ) :
    fromQueue shard t.taken <+: Loop.ready shard events :=
  ⟨t.queues shard, taken_append_queue h shard⟩

theorem ready_of_mem_taken (h : run c.shardStep Loop.noneReady events = some t) {polled : Polled}
    (hmem : some (shard, polled) ∈ t.taken) : shard < c.shardCount ∧ polled ∈ Loop.ready shard events :=
  ⟨taken_lt c.shardCount_ne_zero h (fun _ hnone => absurd hnone List.not_mem_nil) _ hmem,
    (fromQueue_extends_ready h shard).subset (mem_fromQueue.mpr hmem)⟩

theorem exists_shard (hp : p ∈ c.active) : ∃ shard, shard < c.shardCount ∧
    p ∈ (c.shard shard).map Prod.fst ∧
    ∀ other, other < c.shardCount → p ∈ (c.shard other).map Prod.fst → other = shard := by
  obtain ⟨shard, ⟨assignment, hshard, hmem⟩, honly⟩ := c.deals_dealt.one p (Loop.mem_working_iff.mpr hp)
  obtain ⟨hlt, rfl⟩ := Loop.getElem?_dealt_iff.mp hshard
  exact ⟨shard, hlt, hmem, fun other hother hpother =>
    honly other ⟨_, Loop.getElem?_dealt_iff.mpr ⟨hother, rfl⟩, hpother⟩⟩

theorem mem_active_of_mem_shard (hshard : shard < c.shardCount) (hp : p ∈ (c.shard shard).map Prod.fst) :
    p ∈ c.active := by
  obtain ⟨entry, hentry, rfl⟩ := List.mem_map.mp hp
  have hmem : c.shard shard ∈ c.dealt :=
    List.mem_of_getElem? (Loop.getElem?_dealt_iff.mpr ⟨hshard, rfl⟩)
  exact Loop.mem_working_iff.mp (c.deals_dealt.only _ hmem _ hentry).1

/-- **Consumers that keep their promises hand the loop the logs.** -/
theorem delivers_of_serves (h : run c.shardStep Loop.noneReady events = some t)
    (hserves : ∀ shard < c.shardCount, Serves c (c.shard shard) log (Loop.ready shard events))
    (hes : es.map Iteration.polled = t.taken.map seenAs) : Delivers c log es := by
  constructor
  case inOrder =>
    intro p hp
    obtain ⟨shard, hshard, hmem, honly⟩ := exists_shard hp
    have hone : ∀ q m, some (q, .message m) ∈ t.taken → m.partition = p → q = shard := by
      rintro q m hentry rfl
      obtain ⟨hq, hready⟩ := ready_of_mem_taken h hentry
      exact honly q hq ((hserves q hq).only m hready)
    rw [polledOf_eq_messagesIn, hes, messagesIn_map_seenAs hone]
    exact ((fromQueue_extends_ready h shard).filterMap _).trans ((hserves shard hshard).inOrder p hmem)
  case atEnd =>
    rintro pre e post p rfl heof
    rw [List.map_append, List.map_cons, heof] at hes
    obtain ⟨before, rest, htaken, hpre, hrest⟩ := List.append_eq_map_iff.mp hes
    obtain ⟨entry, after, rfl, hentry, -⟩ := List.map_eq_cons_iff.mp hrest
    obtain _ | ⟨shard, polled⟩ := entry
    · cases hentry
    obtain rfl : polled = .partitionEof p := hentry
    obtain ⟨hshard, -⟩ := ready_of_mem_taken h (htaken ▸ List.mem_append_right _ List.mem_cons_self)
    obtain ⟨later, hready⟩ := fromQueue_extends_ready h shard
    have hsplit : Loop.ready shard events =
        fromQueue shard before ++ .partitionEof p :: (fromQueue shard after ++ later) := by
      rw [← hready, htaken, fromQueue_append, fromQueue_cons_self, List.append_assoc, List.cons_append]
    obtain ⟨hmem, hall⟩ := (hserves shard hshard).atEnd _ _ p hsplit
    refine ⟨mem_active_of_mem_shard hshard hmem, fun m hm hnot => ?_⟩
    obtain ⟨hmessage, hp⟩ := mem_messagesIn.mp (hall m hm hnot)
    rw [polledOf_eq_messagesIn, ← hpre]
    exact mem_messagesIn.mpr ⟨List.mem_map.mpr ⟨_, mem_fromQueue.mp hmessage, rfl⟩, hp⟩

/-! ## How many shards there are -/

/-- A fetch of the logs, through its shards, has read all that it planned. -/
def CompleteFetch (c : Loop) (log : ℤ → List BorrowedMessage) (s : PollState) : Prop :=
  ∃ events t es, run c.shardStep Loop.noneReady events = some t ∧
    (∀ shard < c.shardCount, Serves c (c.shard shard) log (Loop.ready shard events)) ∧
    es.map Iteration.polled = t.taken.map seenAs ∧ run (step c) (start c) es = some s ∧ Complete c s

/-- **Sharding changes nothing but the order between partitions.** Two complete fetches of the same plan
have collected the same rows of every partition, in the same order, and the same rows in all, however many
consumers the maximum message size leaves room for and in whatever order these answer. -/
theorem sharded_fetches_agree {b : Broker} (hplan : planFetch b c.filter = .ok c.plan) (hlog : IsLog log)
    (size : UInt32) {s s' : PollState} (h : CompleteFetch c log s)
    (h' : CompleteFetch { c with maxMessageSizeBytes := size } log s') :
    (∀ p, s'.rowsOf p = s.rowsOf p) ∧ s'.collected.Perm s.collected := by
  have hnn : ∀ p, 0 ≤ c.limit p := planFetch_limits_nonneg hplan
  have hrows : ∀ p, s'.rowsOf p = s.rowsOf p := by
    intro p
    obtain ⟨events, t, es, hevents, hserves, hes, hrun, hcomplete⟩ := h
    obtain ⟨events', t', es', hevents', hserves', hes', hrun', hcomplete'⟩ := h'
    rw [rowsOf_of_complete hnn hlog (delivers_of_serves hevents hserves hes) hrun hcomplete p]
    exact rowsOf_of_complete (c := { c with maxMessageSizeBytes := size }) hnn hlog
      (delivers_of_serves hevents' hserves' hes') hrun' hcomplete' p
  exact ⟨hrows, perm_of_classes TopicMessage.partition hrows⟩

/-- A browse of two partitions, with room for a consumer each. -/
def twoShards : Loop where
  filter := {}
  plan := ((planFetch (uniformTopic [0, 1] 0 2) {}).toOption).getD
    { totalMatching := 0, limits := ∅, startOffsets := ∅, endOffsets := ∅ }
  maxMessageSizeBytes := 1048576
  maxTotalPayloadBytes := none
  encode _ := ""

/-- Two messages in each. -/
def twoLogs (p : ℤ) : List BorrowedMessage :=
  [{ partition := p, offset := 0 }, { partition := p, offset := 1 }]

theorem serves_of_messages {assignment : TopicPartitionList} (messages : List BorrowedMessage)
    (horder : ∀ p ∈ assignment.map Prod.fst, messagesIn p (messages.map .message) <+: log p)
    (honly : ∀ m ∈ messages, m.partition ∈ assignment.map Prod.fst) :
    Serves c assignment log (messages.map .message) where
  inOrder := horder
  atEnd pre post p heq := by
    have hmem : Polled.partitionEof p ∈ messages.map Polled.message :=
      heq ▸ List.mem_append_right _ List.mem_cons_self
    simp at hmem
  only m hm := by
    obtain ⟨m', hm', heq⟩ := List.mem_map.mp hm
    cases heq
    exact honly m hm'

theorem completeFetch_of_ends (events : List (Turns.Event Polled))
    (hserves : ∀ shard < c.shardCount, Serves c (c.shard shard) log (Loop.ready shard events))
    (hends : ((run c.shardStep Loop.noneReady events).any fun t =>
      (run (step c) (start c) (t.taken.map fun found => { polled := seenAs found })).any
        fun s => s.unfinished = 0) = true) : ∃ s, CompleteFetch c log s := by
  obtain ⟨t, ht, hloop⟩ := (Option.any_eq_true _ _).mp hends
  obtain ⟨s, hs, hdone⟩ := (Option.any_eq_true _ _).mp hloop
  exact ⟨s, events, t, _, ht, hserves, by rw [List.map_map]; rfl, hs, .inl (of_decide_eq_true hdone)⟩

/-- A message becomes ready in a shard. -/
def readyMessage (shard : ℕ) (partition offset : ℤ) : Turns.Event Polled :=
  .put shard (.message { partition, offset })

/-- A sweep that may poll every shard. -/
def pollAll : Turns.Event Polled := .take (fun _ => true) fun _ => true

/-- With a consumer for each partition, and with one for both, whose answers come in another order. -/
theorem twoShards_agree : ∃ s s', CompleteFetch twoShards twoLogs s ∧
    CompleteFetch { twoShards with maxMessageSizeBytes := 67108864 } twoLogs s' ∧
    s'.collected.Perm s.collected := by
  obtain ⟨s, hs⟩ : ∃ s, CompleteFetch twoShards twoLogs s := by
    refine completeFetch_of_ends [readyMessage 0 0 0, readyMessage 1 1 0, pollAll, pollAll, pollAll,
      readyMessage 0 0 1, pollAll, readyMessage 1 1 1, pollAll] ?_ (by decide)
    intro shard hshard
    have hcount : twoShards.shardCount = 2 := by decide
    obtain rfl | rfl : shard = 0 ∨ shard = 1 := by omega
    · exact serves_of_messages [{ partition := 0, offset := 0 }, { partition := 0, offset := 1 }]
        (by decide) (by decide)
    · exact serves_of_messages [{ partition := 1, offset := 0 }, { partition := 1, offset := 1 }]
        (by decide) (by decide)
  obtain ⟨s', hs'⟩ : ∃ s', CompleteFetch { twoShards with maxMessageSizeBytes := 67108864 } twoLogs s' := by
    refine completeFetch_of_ends [readyMessage 0 1 0, readyMessage 0 1 1, readyMessage 0 0 0, pollAll,
      pollAll, pollAll, readyMessage 0 0 1, pollAll] ?_ (by decide)
    intro shard hshard
    have hcount : ({ twoShards with maxMessageSizeBytes := 67108864 } : Loop).shardCount = 1 := by decide
    obtain rfl : shard = 0 := by omega
    exact serves_of_messages [{ partition := 1, offset := 0 }, { partition := 1, offset := 1 },
      { partition := 0, offset := 0 }, { partition := 0, offset := 1 }] (by decide) (by decide)
  have hlog : IsLog twoLogs := ⟨fun p m hm => by simp [twoLogs] at hm; rcases hm with rfl | rfl <;> rfl,
    fun p => by simp [twoLogs]⟩
  exact ⟨s, s', hs, hs', (sharded_fetches_agree (c := twoShards) (b := uniformTopic [0, 1] 0 2) rfl hlog _ hs
    hs').2⟩

/-! ## No shard is left out -/

/-- **A shard with something ready is polled**: where its consumer shows what it has whenever it is polled,
`2 * shards - 1` iterations take its first result, also where `next_shard` wraps among them. -/
theorem no_shard_starves (hshard : shard < c.shardCount) {s : Consumers} (hnext : s.turn < usizeCount)
    {polled : Polled} (hready : (s.queues shard).head? = some polled)
    (hsees : ∀ e ∈ events, e.Sees shard) (hpolls : 2 * c.shardCount - 1 ≤ events.countP Event.isTake)
    (h : run c.shardStep s events = some t) :
    fromQueue shard s.taken ++ [polled] <+: fromQueue shard t.taken := by
  have hfew : c.shardCount ≤ usizeCount := by
    have hle := fetchShardCount_le c.working.length c.maxMessageSizeBytes
    rw [usizeCount]
    rw [Loop.shardCount]
    omega
  exact served h hshard hfew hnext hready hsees hpolls

/-- Of two shards the first has more and more ready. -/
def busyFirst : Consumers where
  queues shard := if shard = 1 then [.partitionEof 1] else [.partitionEof 0, .nothing]

/-- A sweep of no shard, and two of a busy one. -/
def busyEvents : List (Turns.Event Polled) := [pollAll, readyMessage 0 0 0, pollAll, pollAll]

theorem second_shard_polled : ∃ t, run twoShards.shardStep busyFirst busyEvents = some t ∧
    fromQueue 1 busyFirst.taken ++ [Polled.partitionEof 1] <+: fromQueue 1 t.taken := by
  obtain ⟨t, ht⟩ : ∃ t, run twoShards.shardStep busyFirst busyEvents = some t := ⟨_, rfl⟩
  have hsees : ∀ e ∈ busyEvents, Event.Sees 1 e := by
    simp [busyEvents, pollAll, readyMessage, Event.Sees]
  exact ⟨t, ht, no_shard_starves (by decide) (by decide) rfl hsees (by decide) ht⟩

end OffsetExplorer.Fetch
