import OffsetExplorer.ClusterDisconnect.Unreachable
import OffsetExplorer.Lib.Race
import OffsetExplorer.Text

/-!
# The reachability ping

`ping_bootstrap` dials the servers of a connection: the first one at once, and the others if it has not answered
soon. The first server that accepts is the answer.

* `hostPort`, `addresses`: what is dialled of a list of servers; `hostPort_scheme`.
* `pingRace`: the race of the probes; `answer`: what its verdict is reported as.
* **`ping_answers`**: which answer there is, when it comes, and who is dialled for it.
-/

namespace OffsetExplorer.Client

open ClusterDisconnect (ConnectionStatus)
open Race (Fate Event)

/-! ## Addresses -/

/-- `split_once`: what stands before the first separator, and what after it. -/
def splitOnce (separator : List Char) : List Char → Option (List Char × List Char)
  | [] => none
  | c :: rest =>
    if separator.isPrefixOf (c :: rest) then some ([], (c :: rest).drop separator.length)
    else (splitOnce separator rest).map fun (before, after) => (c :: before, after)

/-- An entry without its protocol. -/
def hostPort (entry : String) : String :=
  match splitOnce "://".toList entry.toList with
  | some (_, hostPort) => String.ofList hostPort
  | none => entry

theorem hostPort_scheme {scheme : String} (h : ':' ∉ scheme.toList) (rest : String) :
    hostPort (scheme ++ "://" ++ rest) = rest := by
  have hsplit : ∀ before : List Char, ':' ∉ before →
      splitOnce "://".toList (before ++ "://".toList ++ rest.toList) = some (before, rest.toList) := by
    intro before
    induction before with
    | nil =>
      intro _
      rfl
    | cons c before ih =>
      intro hc
      rw [List.mem_cons, not_or] at hc
      have hprefix : ¬ "://".toList.isPrefixOf (c :: (before ++ "://".toList ++ rest.toList)) = true := by
        simp [List.isPrefixOf, hc.1]
      rw [List.cons_append, List.cons_append, splitOnce, if_neg hprefix, ih hc.2]
      rfl
  rw [hostPort, String.toList_append, String.toList_append, hsplit _ h]
  exact String.ofList_toList ..

/-- What the probes dial. -/
def addresses (bootstrapServers : String) : List String :=
  (((bootstrapServers.toList.splitOn ',').map fun entry => rustTrim (String.ofList entry)).filter
    (· ≠ "")).map hostPort

/-! ## The race -/

/-- Milliseconds. -/
def tcpPingTimeout : ℕ := 3000

/-- Milliseconds. -/
def pingFanoutDelay : ℕ := 250

variable (bootstrapServers : String) (network : String → Fate)

/-- One probe for each address; all but the first sleep before they dial. -/
def pingRace : Race.Setup (Fin (addresses bootstrapServers).length) where
  delay index := if 0 < index.val then pingFanoutDelay else 0
  limit := tcpPingTimeout
  fate index := network ((addresses bootstrapServers).get index)

variable {bootstrapServers network}

/-- The answer, once `ping_bootstrap` has returned. -/
def answer {ι : Type} (s : Race.State ι) : Option ConnectionStatus :=
  s.verdict.map fun success => if success then .reachable else .unreachable

/-- A server that accepts in time. -/
def Accepts (network : String → Fate) (address : String) : Prop :=
  ∃ after, network address = .succeeds after ∧ after ≤ tcpPingTimeout

theorem answer_eq_some {ι : Type} {s : Race.State ι} {status : ConnectionStatus} (h : answer s = some status) :
    ∃ success, s.verdict = some success ∧ (status = .reachable ↔ success = true) := by
  obtain ⟨success, hverdict, rfl⟩ := Option.map_eq_some_iff.mp h
  refine ⟨success, hverdict, ?_⟩
  cases success with
  | true => exact iff_of_true rfl rfl
  | false => exact iff_of_false (by rintro ⟨⟩) Bool.false_ne_true

theorem succeeds_pingRace_iff :
    (∃ index, (pingRace bootstrapServers network).Succeeds index) ↔
      ∃ address ∈ addresses bootstrapServers, Accepts network address := by
  constructor
  · rintro ⟨index, after, hfate, hle⟩
    exact ⟨_, List.get_mem _ index, after, hfate, hle⟩
  · rintro ⟨address, hmem, after, hfate, hle⟩
    obtain ⟨index, rfl⟩ := List.get_of_mem hmem
    exact ⟨index, after, hfate, hle⟩

theorem bound_pingRace (index : Fin (addresses bootstrapServers).length) :
    (pingRace bootstrapServers network).delay index + (pingRace bootstrapServers network).endsAfter index ≤
      pingFanoutDelay + tcpPingTimeout := by
  refine Nat.add_le_add ?_ (Race.endsAfter_le _ _)
  show (if 0 < index.val then pingFanoutDelay else 0) ≤ pingFanoutDelay
  split_ifs
  · exact le_rfl
  · exact Nat.zero_le _

variable (bootstrapServers network)

/-- What a ping comes to whose steps are on time. -/
structure Punctual (es : List (Event (Fin (addresses bootstrapServers).length)))
    (s : Race.State (Fin (addresses bootstrapServers).length)) : Prop where
  status : ∀ status, answer s = some status →
    (status = .reachable ↔ ∃ address ∈ addresses bootstrapServers, Accepts network address)
  /-- The dead servers of a list do not add up. -/
  clock : s.now ≤ pingFanoutDelay + tcpPingTimeout
  /-- A live one is waited for no longer than for itself. -/
  live : ∀ index after, network ((addresses bootstrapServers).get index) = .succeeds after →
    after ≤ tcpPingTimeout → s.now ≤ (if 0 < index.val then pingFanoutDelay else 0) + after
  /-- Where the first server answers soon, no other is dialled. -/
  oneSocket : ∀ first after, first.val = 0 → network ((addresses bootstrapServers).get first) = .succeeds after →
    after < pingFanoutDelay → ∀ index, index ≠ first → s.phase index = .waiting
  length : es.length ≤ pingFanoutDelay + tcpPingTimeout + 3 * (addresses bootstrapServers).length + 1
  goesOn : answer s = none → ∃ e t, Race.OnTime (pingRace bootstrapServers network) s e ∧
    (pingRace bootstrapServers network).step s e = some t

/-- What a ping comes to. -/
structure Answers (es : List (Event (Fin (addresses bootstrapServers).length)))
    (s : Race.State (Fin (addresses bootstrapServers).length)) : Prop where
  /-- A server that accepts in time is found, however late the probes are looked at. -/
  found : (∃ address ∈ addresses bootstrapServers, Accepts network address) →
    ∀ status, answer s = some status → status = .reachable
  /-- Nobody is found who does not accept. -/
  real : answer s = some .reachable →
    ∃ address ∈ addresses bootstrapServers, ∃ after, network address = .succeeds after
  punctual : Machine.AllSteps (pingRace bootstrapServers network).step
    (Race.OnTime (pingRace bootstrapServers network)) {} es → Punctual bootstrapServers network es s

variable {bootstrapServers network} {es : List (Event (Fin (addresses bootstrapServers).length))}
  {s : Race.State (Fin (addresses bootstrapServers).length)}

theorem punctual_of_run (h : Machine.run (pingRace bootstrapServers network).step {} es = some s)
    (htime : Machine.AllSteps (pingRace bootstrapServers network).step
      (Race.OnTime (pingRace bootstrapServers network)) {} es) : Punctual bootstrapServers network es s where
  status := by
    intro status hstatus
    obtain ⟨success, hverdict, hiff⟩ := answer_eq_some hstatus
    rw [hiff, Race.verdict_iff h htime hverdict, succeeds_pingRace_iff]
  clock := (Race.timely_run h htime).clock _ bound_pingRace
  live := fun _ _ hfate hle => Race.now_le_of_succeeds h htime hfate hle
  oneSocket := by
    intro first after hfirst hfate hsoon index hindex
    have hle : after ≤ tcpPingTimeout := hsoon.le.trans (by decide)
    have hnow : s.now ≤ (if 0 < first.val then pingFanoutDelay else 0) + after :=
      Race.now_le_of_succeeds h htime hfate hle
    rw [if_neg (by omega), Nat.zero_add] at hnow
    have hpos : 0 < index.val := Nat.pos_of_ne_zero fun hzero => hindex (Fin.ext (hzero.trans hfirst.symm))
    -- whoever has dialled has slept through the delay, and the race is over before that
    refine of_not_not fun hdialled => ?_
    have hdelay : (if 0 < index.val then pingFanoutDelay else 0) ≤ s.now :=
      (Race.sound_run h).started index hdialled
    rw [if_pos hpos] at hdelay
    omega
  length := by
    have hlength := Race.length_le bound_pingRace h htime
    rwa [Fintype.card_fin] at hlength
  goesOn := fun hnone => Race.progress (Option.map_eq_none_iff.mp hnone)

/-- **The ping** reports a cluster as reachable exactly where one of its servers accepts in time, whatever the
order of its probes. On time, it waits for a dead server no longer than for a live one, and it dials a single
server where the first one answers. -/
theorem ping_answers (bootstrapServers : String) (network : String → Fate)
    {es : List (Event (Fin (addresses bootstrapServers).length))}
    {s : Race.State (Fin (addresses bootstrapServers).length)}
    (h : Machine.run (pingRace bootstrapServers network).step {} es = some s) :
    Answers bootstrapServers network es s where
  found := by
    intro hlive status hstatus
    obtain ⟨success, hverdict, hiff⟩ := answer_eq_some hstatus
    obtain ⟨index, hindex⟩ := succeeds_pingRace_iff.mpr hlive
    exact hiff.mpr (Race.verdict_of_succeeds h hindex hverdict)
  real := by
    intro hstatus
    obtain ⟨success, hverdict, hiff⟩ := answer_eq_some hstatus
    obtain rfl := hiff.mp rfl
    obtain ⟨index, after, hfate⟩ := Race.succeeds_of_verdict h hverdict
    exact ⟨_, List.get_mem _ index, after, hfate⟩
  punctual := punctual_of_run h

/-! ## A dead broker in front -/

/-- The first of two servers hangs, and the second accepts after five milliseconds. -/
def localNetwork (address : String) : Fate := if address = "localhost:9093" then .succeeds 5 else .hangs

/-- Two servers on this machine. -/
def localServers : String := "PLAINTEXT://localhost:9092, localhost:9093"

/-- The second server is dialled after the delay and answers. -/
def localEvents : List (Event (Fin (addresses localServers).length)) :=
  .start ⟨0, by decide +kernel⟩ :: List.replicate 250 .tick ++ .start ⟨1, by decide +kernel⟩ ::
    List.replicate 5 .tick ++ [.poll ⟨1, by decide +kernel⟩, .join ⟨1, by decide +kernel⟩]

theorem localPing_answers : Answers localServers localNetwork localEvents
    (Machine.after (pingRace localServers localNetwork).step {} localEvents (by decide +kernel)) :=
  ping_answers localServers localNetwork (Machine.run_after _ _ _ _)

end OffsetExplorer.Client
