import Mathlib.Data.List.Forall2

namespace delimited

variable {Sent Flag Message Symbol : Type}

/-- A reader takes one message off the front of its input, given a flag. -/
abbrev Reader (Flag Message Symbol : Type) := Flag → List Symbol → Option (Message × List Symbol)

/-- One message for each flag, in order, and the input behind the last. -/
def readAll (read : Reader Flag Message Symbol) : List Flag → List Symbol → Option (List Message × List Symbol)
  | [], input => some ([], input)
  | flag :: flags, input =>
    (read flag input).bind fun first =>
      (readAll read flags first.2).map fun later => (first.1 :: later.1, later.2)

variable {read : Reader Flag Message Symbol}

/-- One message is read and the rest is read behind it: the step of every induction
over the pieces. -/
theorem readAll_cons {flag : Flag} {flags : List Flag} {input rest : List Symbol} {message : Message}
    (h : read flag input = some (message, rest)) :
    readAll read (flag :: flags) input =
      (readAll read flags rest).map fun later => (message :: later.1, later.2) := by
  rw [readAll, h]
  rfl

/-- The piece is read as a message that means `meaning`, whatever stands behind it. -/
def Delimits (read : Reader Flag Message Symbol) (flag : Flag) (piece : List Symbol)
    (meaning : Message → Prop) : Prop :=
  ∀ rest, ∃ message, read flag (piece ++ rest) = some (message, rest) ∧ meaning message

/-- Pieces that delimit themselves are read back from their concatenation, one
message for each, and nothing of what stands behind them is taken. -/
theorem readAll_flatMap (flag : Sent → Flag) {piece : Sent → List Symbol} {means : Sent → Message → Prop}
    {sent : List Sent} (h : ∀ item ∈ sent, Delimits read (flag item) (piece item) (means item))
    (rest : List Symbol) :
    ∃ messages, readAll read (sent.map flag) (sent.flatMap piece ++ rest) = some (messages, rest) ∧
      List.Forall₂ means sent messages := by
  induction sent with
  | nil => exact ⟨[], rfl, .nil⟩
  | cons item sent ih =>
    obtain ⟨hitem, hlater⟩ := List.forall_mem_cons.mp h
    obtain ⟨messages, hread, hmeans⟩ := ih hlater
    obtain ⟨message, hfirst, hmeaning⟩ := hitem (sent.flatMap piece ++ rest)
    refine ⟨message :: messages, ?_, .cons hmeaning hmeans⟩
    rw [List.map_cons, List.flatMap_cons, List.append_assoc, readAll_cons hfirst, hread]
    rfl

/-- What is related to the messages, item by item, is related through the pieces that they were read from. -/
theorem forall₂_comp {R : Sent → Flag → Prop} {S : Flag → Message → Prop} {sent : List Sent}
    {pieces : List Flag} {messages : List Message} (h : List.Forall₂ R sent pieces)
    (h' : List.Forall₂ S pieces messages) :
    List.Forall₂ (fun item message => ∃ piece, R item piece ∧ S piece message) sent messages := by
  induction h generalizing messages with
  | nil =>
    cases h'
    exact .nil
  | cons hfirst _ ih =>
    cases h' with
    | cons hfirst' hlater' => exact .cons ⟨_, hfirst, hfirst'⟩ (ih hlater')

/-- What each of the messages was sent for is there: an item is related to one of them. -/
theorem exists_of_forall₂ {R : Sent → Message → Prop} {sent : List Sent} {messages : List Message}
    (h : List.Forall₂ R sent messages) {item : Sent} (hmem : item ∈ sent) : ∃ message ∈ messages, R item message := by
  induction h with
  | nil => cases hmem
  | cons hfirst _ ih =>
    obtain rfl | hlater := List.mem_cons.mp hmem
    · exact ⟨_, List.mem_cons_self, hfirst⟩
    · obtain ⟨message, hmessage, hrelated⟩ := ih hlater
      exact ⟨message, List.mem_cons_of_mem _ hmessage, hrelated⟩

end delimited
