import OffsetExplorer.Error
import Mathlib.Tactic.ByContra
import Mathlib.Data.Nat.Notation
import Mathlib.Data.List.Basic

/-!
# The message of a payload

`lib.rs` of the protobuf crate: the path of a payload's header names a message of the compiled schema;
a pasted schema with one message is used for whatever path.

* `MessageDescriptor`, `File`, `DescriptorPool`: the messages of a schema, one inside the other.
* `messageAt`, `soleMessage`, `resolveMessage`: the code.
* `Denotes`: the message that a path means; `declared`: all messages of a schema.
* **`messageAt_eq_ok_iff`**: the walk finds what the path means.
* **`resolves_iff`**: where nothing is guessed. The one message of a pasted schema may have others
  inside, and is taken all the same.
-/

namespace OffsetExplorer.Protobuf

/-- A message type with those inside it; the compiler makes one for each map field. -/
inductive MessageDescriptor : Type where
  | mk (fullName : String) (isMapEntry : Bool) (childMessages : List MessageDescriptor)

namespace MessageDescriptor

/-- The name with its package and the messages around it. -/
def fullName : MessageDescriptor → String
  | mk fullName _ _ => fullName

/-- The message is one that the compiler has made for a map. -/
def isMapEntry : MessageDescriptor → Bool
  | mk _ isMapEntry _ => isMapEntry

/-- The messages that are declared in it. -/
def childMessages : MessageDescriptor → List MessageDescriptor
  | mk _ _ childMessages => childMessages

end MessageDescriptor

/-- A file of the schema; what the compiler makes is inside a message. -/
structure File where
  name : String
  messages : List MessageDescriptor
  written : ∀ m ∈ messages, m.isMapEntry = false

/-- What a schema is compiled to. -/
structure DescriptorPool where
  files : List File

/-- The name that a schema is compiled under. -/
def schemaFileName : String := "schema.proto"

/-- Who has given the schema. -/
inductive ProtobufSchemaSource where
  | manual
  | registry
  | none
  deriving DecidableEq

/-- The file of the schema itself, beside those that it imports. -/
def DescriptorPool.schemaFile (pool : DescriptorPool) : Option File :=
  pool.files.find? fun file => file.name = schemaFileName

/-- `usize::try_from`. -/
def position (step : Int32) : Option ℕ := if 0 ≤ step.toInt then some step.toInt.toNat else none

/-- The error of a step that leads nowhere. -/
def missingIndex (step : Int32) : Report where
  error := .decode
  attachments := [s!"the payload names message index {step.toInt}, which this schema does not have — the topic may be pointed at the wrong schema"]

/-- The loop over the path, with the messages of the level and the last one taken. -/
def messageAtLoop : List Int32 → List MessageDescriptor → Option MessageDescriptor →
    Except Report (Option MessageDescriptor)
  | [], _, current => .ok current
  | step :: index, messages, _ =>
    match (position step).bind fun p => messages[p]? with
    | none => .error (missingIndex step)
    | some message => messageAtLoop index message.childMessages (some message)

/-- `ok_or_else`: a path without a step takes no message. -/
def takenOr : Option MessageDescriptor → Except Report MessageDescriptor
  | none => .error ⟨.decode, ["the .proto schema declares no messages"]⟩
  | some message => .ok message

/-- The path is followed from the top of the file, one step at a time. -/
def messageAt (pool : DescriptorPool) (index : List Int32) : Except Report MessageDescriptor :=
  match pool.schemaFile with
  | none => .error ⟨.decode, ["the schema file went missing after compiling"]⟩
  | some file => (messageAtLoop index file.messages none).bind takenOr

/-- The message of a schema with exactly one, as the code counts them: those that are in no other. -/
def soleMessage (pool : DescriptorPool) : Option MessageDescriptor :=
  pool.schemaFile.bind fun file =>
    match file.messages with
    | [] => none
    | first :: rest => if rest.isEmpty then some first else none

/-- The message of a path. For a pasted schema a path that leads nowhere is no error if there is one message. -/
def resolveMessage (pool : DescriptorPool) (messageIndex : List Int32) (source : ProtobufSchemaSource) :
    Except Report MessageDescriptor :=
  match messageAt pool messageIndex with
  | .ok descriptor => .ok descriptor
  | .error report =>
    if source = .manual then
      match soleMessage pool with
      | some message => .ok message
      | none => .error report
    else .error report

/-! ## What a path means -/

/-- The message that a path means among those of a level: it is at the first place, or inside the
message that is there. -/
inductive Denotes : List MessageDescriptor → List Int32 → MessageDescriptor → Prop
  | here {messages : List MessageDescriptor} {step : Int32} {message : MessageDescriptor} :
      0 ≤ step.toInt → messages[step.toInt.toNat]? = some message → Denotes messages [step] message
  | inside {messages : List MessageDescriptor} {step : Int32} {index : List Int32}
      {message found : MessageDescriptor} :
      0 ≤ step.toInt → messages[step.toInt.toNat]? = some message →
      Denotes message.childMessages index found → Denotes messages (step :: index) found

/-- The messages of the file that was compiled. -/
def DescriptorPool.messages (pool : DescriptorPool) : List MessageDescriptor :=
  (pool.schemaFile.map File.messages).getD []

mutual

/-- The messages that are declared by a message: it and those inside, but for what the compiler made. -/
def MessageDescriptor.declared : MessageDescriptor → List MessageDescriptor
  | .mk fullName isMapEntry childMessages =>
    (if isMapEntry then [] else [.mk fullName isMapEntry childMessages]) ++ declaredIn childMessages

/-- Every message, at any depth. -/
def declaredIn : List MessageDescriptor → List MessageDescriptor
  | [] => []
  | message :: messages => message.declared ++ declaredIn messages

end

/-- All messages that a schema declares, those inside others too. -/
def DescriptorPool.declared (pool : DescriptorPool) : List MessageDescriptor := declaredIn pool.messages

/-- Nothing is guessed: the result is what the path means; where it means nothing it is the one message
that a pasted schema declares, and else an error. -/
structure Resolved (pool : DescriptorPool) (index : List Int32) (source : ProtobufSchemaSource)
    (result : Except Report MessageDescriptor) : Prop where
  denoted : ∀ message, Denotes pool.messages index message → result = .ok message
  sole : (∀ message, ¬ Denotes pool.messages index message) → source = .manual →
    ∀ message, pool.declared = [message] → result = .ok message
  otherwise : (∀ message, ¬ Denotes pool.messages index message) →
    ¬ (source = .manual ∧ ∃ message, pool.declared = [message]) → ∃ report, result = .error report

variable {messages : List MessageDescriptor} {message found : MessageDescriptor} {step : Int32}
  {index : List Int32} {pool : DescriptorPool}

/-! ## The walk -/

theorem not_denotes_nil : ¬ Denotes messages [] found := nofun

theorem bind_position_eq_some_iff :
    ((position step).bind fun p => messages[p]?) = some message ↔
      0 ≤ step.toInt ∧ messages[step.toInt.toNat]? = some message := by
  unfold position
  split_ifs with h
  · rw [Option.bind_some]
    exact (and_iff_right h).symm
  · simp [h]

theorem denotes_cons_iff {next : Int32} :
    Denotes messages (step :: next :: index) found ↔ ∃ message,
      ((position step).bind fun p => messages[p]?) = some message ∧
        Denotes message.childMessages (next :: index) found := by
  constructor
  · intro h
    cases h with
    | inside hpos hget hrest => exact ⟨_, bind_position_eq_some_iff.mpr ⟨hpos, hget⟩, hrest⟩
  · rintro ⟨message, hget, hrest⟩
    obtain ⟨hpos, hget⟩ := bind_position_eq_some_iff.mp hget
    exact .inside hpos hget hrest

theorem denotes_singleton_iff :
    Denotes messages [step] found ↔ ((position step).bind fun p => messages[p]?) = some found := by
  rw [bind_position_eq_some_iff]
  constructor
  · intro h
    cases h with
    | here hpos hget => exact ⟨hpos, hget⟩
    | inside _ _ hrest => exact absurd hrest not_denotes_nil
  · rintro ⟨hpos, hget⟩
    exact .here hpos hget

/-- **The walk** over a path that is not empty ends with the message that it means. -/
theorem messageAtLoop_eq_ok_iff (hne : index ≠ []) (messages : List MessageDescriptor)
    (current : Option MessageDescriptor) (result : Option MessageDescriptor) :
    messageAtLoop index messages current = .ok result ↔
      ∃ found, result = some found ∧ Denotes messages index found := by
  induction index generalizing messages current with
  | nil => exact absurd rfl hne
  | cons step index ih =>
    rw [messageAtLoop]
    cases hget : (position step).bind fun p => messages[p]? with
    | none =>
      refine iff_of_false (fun h => by cases h) ?_
      rintro ⟨found, -, h⟩
      cases index with
      | nil => rw [denotes_singleton_iff, hget] at h; cases h
      | cons next index =>
        obtain ⟨message, hsome, -⟩ := denotes_cons_iff.mp h
        rw [hget] at hsome
        cases hsome
    | some message =>
      cases index with
      | nil =>
        have honly : ∀ found, Denotes messages [step] found ↔ message = found := by
          intro found
          rw [denotes_singleton_iff, hget, Option.some.injEq]
        simp only [messageAtLoop, honly, Except.ok.injEq]
        constructor
        · rintro rfl
          exact ⟨message, rfl, rfl⟩
        · rintro ⟨found, rfl, rfl⟩
          rfl
      | cons next index =>
        refine (ih (List.cons_ne_nil _ _) message.childMessages (some message)).trans ?_
        refine exists_congr fun found => and_congr_right fun _ => ?_
        rw [denotes_cons_iff]
        constructor
        · exact fun h => ⟨message, hget, h⟩
        · rintro ⟨other, hother, h⟩
          obtain rfl := Option.some.inj (hget.symm.trans hother)
          exact h

theorem messageAt_eq {file : File} (hfile : pool.schemaFile = some file) :
    messageAt pool index = (messageAtLoop index file.messages none).bind takenOr := by
  rw [messageAt, hfile]

/-- **The code finds what the path means**, and nothing else. -/
theorem messageAt_eq_ok_iff :
    messageAt pool index = .ok message ↔ Denotes pool.messages index message := by
  cases hfile : pool.schemaFile with
  | none =>
    have hempty : pool.messages = [] := by simp [DescriptorPool.messages, hfile]
    refine iff_of_false (fun h => ?_) fun h => ?_
    · simp [messageAt, hfile] at h
    · rw [hempty] at h
      cases h with
      | here _ hget => cases hget
      | inside _ hget _ => cases hget
  | some file =>
    have hmessages : pool.messages = file.messages := by simp [DescriptorPool.messages, hfile]
    rw [hmessages]
    cases index with
    | nil =>
      rw [messageAt_eq hfile]
      exact iff_of_false (fun h => by cases h) not_denotes_nil
    | cons step index =>
      have hloop := messageAtLoop_eq_ok_iff (List.cons_ne_nil step index) file.messages none
      cases hwalk : messageAtLoop (step :: index) file.messages none with
      | error report =>
        rw [messageAt_eq hfile, hwalk]
        refine iff_of_false (fun h => by cases h) fun h => ?_
        have hok := (hloop (some message)).mpr ⟨message, rfl, h⟩
        rw [hwalk] at hok
        cases hok
      | ok result =>
        obtain ⟨found, rfl, hfound⟩ := (hloop result).mp hwalk
        rw [messageAt_eq hfile, hwalk]
        constructor
        · intro h
          cases h
          exact hfound
        · intro h
          have hok := (hloop (some message)).mpr ⟨message, rfl, h⟩
          rw [hwalk] at hok
          cases hok
          rfl

theorem exists_error_of_not_denotes (h : ∀ message, ¬ Denotes pool.messages index message) :
    ∃ report, messageAt pool index = .error report := by
  cases hwalk : messageAt pool index with
  | error report => exact ⟨report, rfl⟩
  | ok message => exact absurd (messageAt_eq_ok_iff.mp hwalk) (h message)

/-! ## One message -/

theorem declared_eq_cons (h : message.isMapEntry = false) :
    message.declared = message :: declaredIn message.childMessages := by
  cases message with
  | mk fullName isMapEntry childMessages =>
    cases (h : isMapEntry = false)
    rfl

theorem soleMessage_eq_some_iff : soleMessage pool = some message ↔ pool.messages = [message] := by
  unfold soleMessage DescriptorPool.messages
  cases pool.schemaFile with
  | none => simp
  | some file =>
    simp only [Option.bind_some, Option.map_some, Option.getD_some]
    rcases file.messages with _ | ⟨first, _ | ⟨second, rest⟩⟩ <;> simp

theorem not_isMapEntry (h : message ∈ pool.messages) : message.isMapEntry = false := by
  unfold DescriptorPool.messages at h
  cases hfile : pool.schemaFile with
  | none => simp [hfile] at h
  | some file => exact file.written message (by simpa [hfile] using h)

theorem declared_eq_singleton_iff :
    pool.declared = [message] ↔
      pool.messages = [message] ∧ declaredIn message.childMessages = [] := by
  have hwritten : ∀ m ∈ pool.messages, m.isMapEntry = false := fun m => not_isMapEntry
  rw [DescriptorPool.declared]
  generalize pool.messages = messages at hwritten
  rcases messages with _ | ⟨first, _ | ⟨second, rest⟩⟩
  · simp [declaredIn]
  · have hfirst := declared_eq_cons (hwritten first (by simp))
    rw [declaredIn, declaredIn, List.append_nil, hfirst]
    constructor
    · intro h
      obtain ⟨rfl, hnone⟩ := List.cons.inj h
      exact ⟨rfl, hnone⟩
    · rintro ⟨h, hnone⟩
      obtain rfl := List.head_eq_of_cons_eq h
      rw [hnone]
  · have hfirst := declared_eq_cons (hwritten first (by simp))
    have hsecond := declared_eq_cons (hwritten second (by simp))
    rw [declaredIn, declaredIn, hfirst, hsecond]
    refine iff_of_false (fun h => ?_) fun h => ?_
    · have hlength := congrArg List.length h
      simp only [List.cons_append, List.length_cons, List.length_append, List.length_nil] at hlength
      omega
    · cases h.1

theorem resolveMessage_of_denotes {source : ProtobufSchemaSource}
    (h : Denotes pool.messages index message) : resolveMessage pool index source = .ok message := by
  rw [resolveMessage, messageAt_eq_ok_iff.mpr h]

/-- A path that means nothing: a pasted schema gives the one message that is in no other. -/
theorem resolveMessage_of_not_denotes {source : ProtobufSchemaSource}
    (h : ∀ message, ¬ Denotes pool.messages index message) :
    (∀ message, resolveMessage pool index source = .ok message ↔
      source = .manual ∧ pool.messages = [message]) := by
  intro message
  obtain ⟨report, hreport⟩ := exists_error_of_not_denotes h
  rw [resolveMessage, hreport]
  dsimp only
  by_cases hsource : source = .manual
  · rw [if_pos hsource, ← soleMessage_eq_some_iff]
    cases soleMessage pool <;> simp [hsource]
  · rw [if_neg hsource]
    exact iff_of_false (fun h => by cases h) fun h => hsource h.1

theorem eq_error_of_forall_ne {α : Type} {result : Except Report α} (h : ∀ a, result ≠ .ok a) :
    ∃ report, result = .error report := by
  cases result with
  | error report => exact ⟨report, rfl⟩
  | ok a => exact absurd rfl (h a)

/-- **Where nothing is guessed**: everywhere but for a pasted schema whose one message has others inside
it, and a path that means none of them. -/
theorem resolves_iff (pool : DescriptorPool) (index : List Int32) (source : ProtobufSchemaSource) :
    Resolved pool index source (resolveMessage pool index source) ↔
      ¬ (source = .manual ∧ (∀ message, ¬ Denotes pool.messages index message) ∧
        ∃ message, pool.messages = [message] ∧ declaredIn message.childMessages ≠ []) := by
  constructor
  · rintro h ⟨hsource, hnone, message, hmessages, hinside⟩
    have hmany : ¬ (source = .manual ∧ ∃ message, pool.declared = [message]) := by
      rintro ⟨-, other, hother⟩
      obtain ⟨hone, hempty⟩ := declared_eq_singleton_iff.mp hother
      obtain rfl := List.head_eq_of_cons_eq (hmessages.symm.trans hone)
      exact hinside hempty
    obtain ⟨report, hreport⟩ := h.otherwise hnone hmany
    have hok := (resolveMessage_of_not_denotes hnone message).mpr ⟨hsource, hmessages⟩
    rw [hreport] at hok
    cases hok
  · intro h
    refine ⟨fun message => resolveMessage_of_denotes, fun hnone hsource message hone => ?_,
      fun hnone hmany => eq_error_of_forall_ne fun message hok => ?_⟩
    · obtain ⟨hmessages, -⟩ := declared_eq_singleton_iff.mp hone
      exact (resolveMessage_of_not_denotes hnone message).mpr ⟨hsource, hmessages⟩
    · obtain ⟨hsource, hmessages⟩ := (resolveMessage_of_not_denotes hnone message).mp hok
      by_cases hinside : declaredIn message.childMessages = []
      · exact hmany ⟨hsource, message, declared_eq_singleton_iff.mpr ⟨hmessages, hinside⟩⟩
      · exact h ⟨hsource, hnone, message, hmessages, hinside⟩

/-- An order and its lines, pasted without the rest of their file. -/
def pastedOrder : MessageDescriptor :=
  .mk "shop.Order" false [.mk "shop.Order.Line" false [], .mk "shop.Order.Note" false []]

/-- A pasted schema of one message with two in it. -/
def pastedPool : DescriptorPool where
  files := [⟨schemaFileName, [pastedOrder], by simp [pastedOrder, MessageDescriptor.isMapEntry]⟩]

/-- A path to a third message inside the order, which is not there, gives the order. -/
theorem pasted_guessed :
    resolveMessage pastedPool [0, 2] .manual = .ok pastedOrder ∧
      ¬ Resolved pastedPool [0, 2] .manual (resolveMessage pastedPool [0, 2] .manual) := by
  have hguess : resolveMessage pastedPool [0, 2] .manual = .ok pastedOrder := rfl
  refine ⟨hguess, fun h => ?_⟩
  have hnone : ∀ message, ¬ Denotes pastedPool.messages [0, 2] message := by
    intro message hdenotes
    have hfound := messageAt_eq_ok_iff.mpr hdenotes
    have hmissing : messageAt pastedPool [0, 2] = .error (missingIndex 2) := rfl
    rw [hmissing] at hfound
    cases hfound
  have hmany : ¬ (ProtobufSchemaSource.manual = .manual ∧ ∃ message, pastedPool.declared = [message]) := by
    rintro ⟨-, message, hmessage⟩
    have hlength : pastedPool.declared.length = 1 := congrArg List.length hmessage
    exact absurd hlength (by decide)
  obtain ⟨report, hreport⟩ := h.otherwise hnone hmany
  rw [hguess] at hreport
  cases hreport

end OffsetExplorer.Protobuf
