import OffsetExplorer.Lib.Machine

/-!
# The end of a session that is unreachable

The row of a connection counts strikes: renderings of what is cached of the connection, in which it is
connected and unreachable. What is counted need not be a poll of the session.

* `Row.effect`: the effect of `useUnreachableDisconnect`; `Row.step`: what can happen to a row, and the polls
  as they were.
* `Justified`: the last two polls were made in this session and found the cluster unreachable.
* `Meets`: a session starts without a strike, and a strike is counted for polls of the session.
* **`justified_of_allSteps`**: with such steps, a session is ended only where this is justified.
-/

namespace OffsetExplorer.ClusterDisconnect

/-- What a poll reports. -/
inductive ConnectionStatus where
  | unknown
  | reachable
  | unreachable
  deriving DecidableEq

/-- A poll that has been completed. -/
structure Poll where
  /-- The session in which it was started. -/
  session : ℕ
  status : ConnectionStatus
  deriving DecidableEq

/-- A row of the connection tree, with what the back end and the query cache hold of its connection. -/
structure Row where
  /-- The sessions that the back end has started; the last of them is the current one. -/
  session : ℕ
  /-- The connection is in the connected set of the back end. -/
  connected : Bool
  name : String
  isConnected : Bool
  /-- What the back end has answered to the query of `isConnected` that is on its way. -/
  answer : Option Bool
  status : ConnectionStatus
  statusUpdatedAt : ℕ
  /-- The session in which the poll that is on its way was started. -/
  poll : Option ℕ
  /-- The polls are enabled by the last rendering. -/
  enabled : Bool
  /-- What the effect has last run for. -/
  deps : Option (String × Bool × ConnectionStatus × ℕ)
  strikes : ℕ
  /-- The polls completed before the effect has last run. -/
  before : List Poll
  /-- The polls completed since then. -/
  since : List Poll

/-- What can happen to the row of a connection. -/
inductive RowEvent where
  /-- The back end has connected. -/
  | connect
  /-- The session has ended, for whatever reason. -/
  | disconnect
  | rename (name : String)
  | askConnected
  | connectedAnswered
  | startPoll
  | pollCompleted (status : ConnectionStatus) (now : ℕ)
  | pollFailed
  | render

/-- Two in a row: one may be a hiccup. -/
def unreachablePollsBeforeDisconnect : ℕ := 2

namespace Row

/-- The row when it is mounted at the time `now`. -/
def mounted (name : String) (now : ℕ) : Row where
  session := 0
  connected := false
  name := name
  isConnected := false
  answer := none
  status := .unknown
  statusUpdatedAt := now
  poll := none
  enabled := false
  deps := none
  strikes := 0
  before := []
  since := []

/-- The dependencies of the effect, the name among them. -/
def currentDeps (r : Row) : String × Bool × ConnectionStatus × ℕ :=
  (r.name, r.isConnected, r.status, r.statusUpdatedAt)

/-- The strikes after the effect, and the warning with which it disconnects. -/
def effect (r : Row) : ℕ × Option String :=
  if !r.isConnected || r.status != .unreachable then (0, none)
  else if r.strikes + 1 < unreachablePollsBeforeDisconnect then (r.strikes + 1, none)
  else (0, some (r.name ++ " became unreachable — disconnected, and its loaded data cleared. " ++
    "Use Connect once the cluster is back."))

/-- The effect runs where a dependency has changed. -/
def runs (r : Row) : Bool := r.deps != some r.currentDeps

/-- The warning with which a rendering disconnects. -/
def disconnects (r : Row) : Option String := if r.runs then r.effect.2 else none

/-- A rendering, with its effect where a dependency has changed. -/
def render (r : Row) : Row :=
  if r.runs then { r with
    enabled := r.isConnected
    deps := some r.currentDeps
    strikes := r.effect.1
    before := r.before ++ r.since
    since := [] }
  else { r with enabled := r.isConnected }

/-- One step of the row. What cannot happen is `none`. -/
def step (r : Row) : RowEvent → Option Row
  | .connect => some { r with session := r.session + 1, connected := true }
  | .disconnect => some { r with connected := false }
  | .rename name => some { r with name }
  -- a query that is asked again takes the place of the one on its way
  | .askConnected => some { r with answer := some r.connected }
  | .connectedAnswered => r.answer.map fun isConnected => { r with isConnected, answer := none }
  | .startPoll => if r.enabled then some { r with poll := some r.session } else none
  | .pollCompleted status now => r.poll.map fun session => { r with
      status
      statusUpdatedAt := now
      poll := none
      since := r.since ++ [⟨session, status⟩] }
  | .pollFailed => some { r with poll := none }
  | .render => some r.render

/-- A poll of the current session that has found the cluster unreachable. -/
def strike (r : Row) : Poll := ⟨r.session, .unreachable⟩

/-- A rendering of this row counts a strike. -/
def counts (r : Row) : Bool := r.runs && r.isConnected && r.status == .unreachable

/-- The last two polls were made in the current session, and have found the cluster unreachable. -/
def Justified (r : Row) : Prop := [r.strike, r.strike] <:+ r.before ++ r.since

/-- There is a poll to count, of the current session, and if a strike stands then all are such. -/
def CountsPolls (r : Row) : Prop :=
  (∃ p ∈ r.since.getLast?, p.session = r.session) ∧ (r.strikes ≠ 0 → ∀ p ∈ r.since, p = r.strike)

instance (r : Row) : Decidable r.CountsPolls :=
  inferInstanceAs (Decidable ((∃ p ∈ r.since.getLast?, p.session = r.session) ∧ (_ → _)))

/-- What a step has to meet. A strike that stands when a session starts does no harm where a rendering forgets it
before the next poll, so this is more than the sessions need. -/
def Meets (r : Row) : RowEvent → Prop
  | .connect => r.strikes = 0
  | .render => r.counts = true → r.CountsPolls
  | _ => True

instance (r : Row) : DecidablePred r.Meets
  | .connect => inferInstanceAs (Decidable (r.strikes = 0))
  | .render => inferInstanceAs (Decidable (_ → r.CountsPolls))
  | .disconnect | .rename _ | .askConnected | .connectedAnswered | .startPoll | .pollCompleted _ _
  | .pollFailed => inferInstanceAs (Decidable True)

/-- One strike stands for the last poll that the effect has seen. -/
structure Struck (r : Row) : Prop where
  status : ∀ p ∈ r.since.getLast?, p.status = r.status
  standing : r.strikes ≠ 0 → [r.strike] <:+ r.before

/-! ## One rendering -/

/-- **What the effect does**: it forgets the strikes, counts the first, or disconnects where one stands. -/
theorem effect_cases (r : Row) :
    r.effect = (0, none) ∨
    (r.isConnected = true ∧ r.status = .unreachable ∧ r.effect = (1, none)) ∨
    (r.isConnected = true ∧ r.status = .unreachable ∧ r.strikes ≠ 0 ∧ r.effect.1 = 0) := by
  unfold effect
  split_ifs with hidle hfirst
  · exact .inl rfl
  all_goals
    obtain ⟨hconnected, hstatus⟩ : r.isConnected = true ∧ r.status = .unreachable := by simpa using hidle
  · have hzero : r.strikes = 0 := by
      unfold unreachablePollsBeforeDisconnect at hfirst
      omega
    exact .inr (.inl ⟨hconnected, hstatus, by rw [hzero]⟩)
  · have hone : r.strikes ≠ 0 := by
      unfold unreachablePollsBeforeDisconnect at hfirst
      omega
    exact .inr (.inr ⟨hconnected, hstatus, hone, rfl⟩)

theorem counts_of_runs {r : Row} (hruns : r.runs = true) (hconnected : r.isConnected = true)
    (hstatus : r.status = .unreachable) : r.counts = true := by
  rw [counts, hruns, hconnected, hstatus]
  rfl

theorem Struck.strike_suffix {r : Row} (hr : r.Struck) (hstatus : r.status = .unreachable)
    (h : ∃ p ∈ r.since.getLast?, p.session = r.session) : [r.strike] <:+ r.since := by
  obtain ⟨⟨session, status⟩, hp, hsession⟩ := h
  have hlast : (⟨session, status⟩ : Poll) = r.strike :=
    congrArg₂ Poll.mk hsession ((hr.status _ hp).trans hstatus)
  rw [hlast] at hp
  obtain ⟨older, hsince⟩ := List.getLast?_eq_some_iff.mp hp
  exact ⟨older, hsince.symm⟩

theorem Struck.render {r : Row} (hr : r.Struck) (h : r.counts = true → r.CountsPolls) :
    r.render.Struck := by
  unfold Row.render
  split_ifs with hruns
  · refine ⟨fun _ => nofun, fun hstanding => ?_⟩
    rcases effect_cases r with heq | ⟨hconnected, hstatus, -⟩ | ⟨-, -, -, heq⟩
    · exact absurd (congrArg Prod.fst heq) hstanding
    · have hpolls := h (counts_of_runs hruns hconnected hstatus)
      exact (hr.strike_suffix hstatus hpolls.1).trans (List.suffix_append _ _)
    · exact absurd heq hstanding
  · exact ⟨hr.status, hr.standing⟩

/-- **A rendering that disconnects** where a strike stands has two polls to show for it. -/
theorem Struck.justified {r : Row} (hr : r.Struck) (h : r.counts = true → r.CountsPolls)
    (hdisconnects : r.disconnects ≠ none) : r.Justified := by
  unfold disconnects at hdisconnects
  split_ifs at hdisconnects with hruns
  swap
  · exact absurd rfl hdisconnects
  rcases effect_cases r with heq | ⟨-, -, heq⟩ | ⟨hconnected, hstatus, hstanding, -⟩
  · exact absurd (congrArg Prod.snd heq) hdisconnects
  · exact absurd (congrArg Prod.snd heq) hdisconnects
  · obtain ⟨hlast, hall⟩ := h (counts_of_runs hruns hconnected hstatus)
    obtain ⟨older, hbefore⟩ := hr.standing hstanding
    have hsince : r.since = List.replicate r.since.length r.strike :=
      List.eq_replicate_of_mem (hall hstanding)
    have hpos : 0 < r.since.length := by
      obtain ⟨p, hp, -⟩ := hlast
      exact List.length_pos_of_mem (List.mem_of_getLast? hp)
    obtain ⟨n, hn⟩ : ∃ n, r.since.length = n + 1 := ⟨r.since.length - 1, by omega⟩
    -- the standing strike and those of the new polls are one block
    have hblock : [r.strike] ++ List.replicate (n + 1) r.strike =
        List.replicate n r.strike ++ [r.strike, r.strike] := by
      change List.replicate 1 r.strike ++ _ = _ ++ List.replicate 2 r.strike
      rw [List.replicate_append_replicate, List.replicate_append_replicate]
      congr 1
      omega
    refine ⟨older ++ List.replicate n r.strike, ?_⟩
    rw [← hbefore, hsince, hn, List.append_assoc, List.append_assoc, hblock]

/-! ## Runs -/

theorem struck_mounted (name : String) (now : ℕ) : (mounted name now).Struck where
  status := fun _ => nofun
  standing := fun h => absurd rfl h

theorem Struck.step {r t : Row} {event : RowEvent} (hmeets : r.Meets event) (hr : r.Struck)
    (h : r.step event = some t) : t.Struck := by
  cases event with
  | connect =>
    cases h
    exact ⟨hr.status, fun hstanding => absurd hmeets hstanding⟩
  | disconnect | rename name | askConnected | pollFailed =>
    cases h
    exact ⟨hr.status, hr.standing⟩
  | connectedAnswered =>
    obtain ⟨isConnected, -, rfl⟩ := Option.map_eq_some_iff.mp h
    exact ⟨hr.status, hr.standing⟩
  | startPoll =>
    simp only [Row.step] at h
    split_ifs at h
    cases h
    exact ⟨hr.status, hr.standing⟩
  | pollCompleted status now =>
    obtain ⟨session, -, rfl⟩ := Option.map_eq_some_iff.mp h
    refine ⟨fun p hp => ?_, hr.standing⟩
    rw [List.getLast?_concat] at hp
    cases hp
    rfl
  | render =>
    cases h
    exact hr.render hmeets

end Row

section

variable {Id : Type} [DecidableEq Id]

/-- The rows of all connections, when the tree is mounted. -/
def mounted (names : Id → String) (now : ℕ) (id : Id) : Row := Row.mounted (names id) now

/-- A rendering that disconnects does so after two polls of the session that found no cluster. -/
def DisconnectsJustified (rows : Id → Row) : Id × RowEvent → Prop
  | (id, .render) => (rows id).disconnects ≠ none → (rows id).Justified
  | _ => True

/-- **Where sessions start without a strike and strikes are counted for polls of the session**, the row
disconnects only after two polls in a row, both of the current session, that found the cluster unreachable. -/
theorem justified_of_allSteps (names : Id → String) (now : ℕ) {events : List (Id × RowEvent)}
    (h : Machine.AllSteps (Machine.each Row.step) (fun rows e => (rows e.1).Meets e.2) (mounted names now)
      events) :
    Machine.AllSteps (Machine.each Row.step) DisconnectsJustified (mounted names now) events := by
  refine h.of_invariant (I := fun rows => ∀ id, (rows id).Struck) (fun rows e t hmeets hrows hstep => ?_)
    (fun rows e hmeets hrows => ?_) fun id => Row.struck_mounted (names id) now
  · exact Machine.each_invariant (fun _ _ _ => Row.Struck.step) hmeets hrows hstep
  · obtain ⟨id, event⟩ := e
    cases event with
    | render => exact (hrows id).justified hmeets
    | _ => trivial

instance (rows : Id → Row) : DecidablePred (DisconnectsJustified rows)
  | (id, .render) =>
    inferInstanceAs (Decidable ((rows id).disconnects ≠ none → [_, _] <:+ (rows id).before ++ (rows id).since))
  | (_, .connect) | (_, .disconnect) | (_, .rename _) | (_, .askConnected) | (_, .connectedAnswered)
  | (_, .startPoll) | (_, .pollCompleted _ _) | (_, .pollFailed) => inferInstanceAs (Decidable True)

end

/-- A connection is made and rendered, and a poll finds the cluster unreachable. -/
def unreachableOnce : List (ℕ × RowEvent) := [(0, .connect), (0, .askConnected), (0, .connectedAnswered),
  (0, .render), (0, .startPoll), (0, .pollCompleted .unreachable 1), (0, .render)]

theorem unreachableTwice_justified : Machine.AllSteps (Machine.each Row.step) DisconnectsJustified
    (mounted (fun _ : ℕ => "prod") 0)
    (unreachableOnce ++ [(0, .startPoll), (0, .pollCompleted .unreachable 2), (0, .render)]) :=
  justified_of_allSteps _ 0 (by decide +kernel)

/-- **A new name is counted** as if it were a poll. -/
theorem renamed_not_justified : ¬ Machine.AllSteps (Machine.each Row.step) DisconnectsJustified
    (mounted (fun _ : ℕ => "prod") 0) (unreachableOnce ++ [(0, .rename "renamed"), (0, .render)]) := by
  decide +kernel

-- so is what the last session has left in the cache
example : ¬ Machine.AllSteps (Machine.each Row.step) DisconnectsJustified (mounted (fun _ : ℕ => "prod") 0)
    (unreachableOnce ++ [(0, .disconnect), (0, .askConnected), (0, .connectedAnswered), (0, .render),
      (0, .connect), (0, .askConnected), (0, .connectedAnswered), (0, .render), (0, .startPoll),
      (0, .pollCompleted .unreachable 2), (0, .render)]) := by
  decide +kernel

end OffsetExplorer.ClusterDisconnect
