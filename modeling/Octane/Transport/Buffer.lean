import Octane.Transport.TcpConnection

open search

namespace octane.transport.TcpConnection

variable {H : Type}

/-- The indices of the rolling buffer. -/
structure InBounds (conn : TcpConnection H) : Prop where
  ordered : conn.read_pos_ ≤ conn.write_pos_
  inside : conn.write_pos_ ≤ conn.buffer_.size
  room : 0 < conn.buffer_.size

/-- What is unconsumed is what lies between the two positions. -/
theorem length_unconsumed (self : TcpConnection H) :
    self.unconsumed.length = self.write_pos_ - self.read_pos_ := memory.length_read _ _ _

/-- Compaction touches the buffer and its indices only. -/
theorem compact_frame (self : TcpConnection H) :
    self.compact = { self with
      buffer_ := self.compact.buffer_
      read_pos_ := self.compact.read_pos_
      write_pos_ := self.compact.write_pos_ } := by
  rw [compact]
  split_ifs <;> rfl

/-- Moving the bytes to the front loses none of them and takes no new storage; where
there is still no room behind them, they were in front already. -/
theorem compact_spec {self : TcpConnection H} (h : self.InBounds) :
    self.compact.InBounds ∧ self.compact.unconsumed = self.unconsumed ∧
      self.compact.buffer_.alloc = self.buffer_.alloc ∧
      (self.compact.write_pos_ = self.compact.buffer_.size → self.read_pos_ = 0) := by
  obtain ⟨hordered, hinside, hroom⟩ := h
  rw [compact]
  split_ifs with hmove
  · have hunconsumed : unconsumed { self with
        buffer_ := { self.buffer_ with
          mem := memory.move self.buffer_.mem 0 self.read_pos_ (self.write_pos_ - self.read_pos_) }
        read_pos_ := 0
        write_pos_ := self.write_pos_ - self.read_pos_ } = self.unconsumed :=
      memory.read_move self.buffer_.mem 0 self.read_pos_ (self.write_pos_ - self.read_pos_)
    refine ⟨⟨Nat.zero_le _, ?_, hroom⟩, hunconsumed, rfl, ?_⟩
    · dsimp only
      omega
    · dsimp only
      omega
  · refine ⟨⟨hordered, hinside, hroom⟩, rfl, rfl, fun hfull => ?_⟩
    omega

/-- It does not change how much fits. -/
theorem compact_size (self : TcpConnection H) : self.compact.buffer_.size = self.buffer_.size := by
  rw [compact]
  split_ifs <;> rfl

/-- After compaction the buffer is full only where all of it is unconsumed. -/
theorem compact_full {self : TcpConnection H} (h : self.InBounds)
    (hfull : self.compact.buffer_.size = self.compact.write_pos_) :
    self.buffer_.size = self.unconsumed.length := by
  obtain ⟨_, _, _, hzero⟩ := compact_spec h
  have hfront : self.read_pos_ = 0 := hzero hfull.symm
  rw [compact, if_neg (by omega)] at hfull
  rw [length_unconsumed]
  omega

/-- Growing changes the storage and nothing else. -/
theorem grow_frame (self : TcpConnection H) :
    self.grow = { self with buffer_ := self.grow.buffer_ } := by
  rw [grow]
  split_ifs <;> rfl

/-- Growing makes room and keeps what is in the buffer. -/
theorem grow_spec {self : TcpConnection H} (h : self.InBounds) :
    self.grow.write_pos_ < self.grow.buffer_.size ∧ self.grow.unconsumed = self.unconsumed := by
  obtain ⟨hordered, hinside, hroom⟩ := h
  rw [grow]
  split_ifs with hfull
  · refine ⟨?_, ?_⟩
    · simp only [Buffer.resize]
      omega
    · apply memory.read_congr
      intro k hk
      dsimp only at hk
      have hcell : self.read_pos_ + k < self.buffer_.size := by omega
      simp only [Buffer.resize, if_pos hcell]
  · exact ⟨by omega, rfl⟩

/-- A read is started with room, and the unconsumed bytes stay as they are. -/
theorem read_more_spec {self : TcpConnection H} (h : self.InBounds) :
    ∃ buffer_ read_pos_ write_pos_, self.read_more = { self with
        buffer_
        read_pos_
        write_pos_
        pending := self.pending ++ [.read write_pos_ (buffer_.size - write_pos_)]
        log := self.log ++ [.async_read_some (buffer_.size - write_pos_)] } ∧
      read_pos_ ≤ write_pos_ ∧ write_pos_ < buffer_.size ∧
      memory.read buffer_.mem read_pos_ (write_pos_ - read_pos_) = self.unconsumed := by
  obtain ⟨hcompact, hkept, _, _⟩ := compact_spec h
  obtain ⟨hless, hsame⟩ := grow_spec hcompact
  refine ⟨self.compact.grow.buffer_, self.compact.read_pos_, self.compact.write_pos_, ?_,
    hcompact.ordered, ?_, ?_⟩
  · rw [read_more, async_read_some, grow_frame, compact_frame]
  · rwa [grow_frame] at hless
  · rw [← hkept, ← hsame, grow_frame]
    rfl

/-- A buffer grows to twice what it holds unconsumed, or not at all. -/
theorem read_more_size {self : TcpConnection H} (h : self.InBounds) :
    self.read_more.buffer_.size = self.buffer_.size ∨
      self.read_more.buffer_.size = 2 * self.unconsumed.length := by
  rw [read_more, async_read_some, grow]
  split_ifs with hfull
  · have hall := compact_full h hfull
    rw [← compact_size] at hall
    exact .inr ((Nat.mul_comm _ 2).trans (congrArg (2 * ·) hall))
  · exact .inl (compact_size self)

/-- Making room keeps what has been read, however it is made. -/
theorem read_more_unconsumed {self : TcpConnection H} (h : self.InBounds) :
    self.read_more.unconsumed = self.unconsumed := by
  obtain ⟨_, _, _, heq, _, _, hkept⟩ := read_more_spec h
  rw [heq]
  exact hkept

/-- Consuming a request moves the positions only. -/
theorem consume_frame (self : TcpConnection H) (total : Nat) :
    self.consume total = { self with
      read_pos_ := (self.consume total).read_pos_
      write_pos_ := (self.consume total).write_pos_ } := by
  rw [consume]
  split_ifs <;> rfl

/-- A consumed request is taken off the front of what is unconsumed. -/
theorem consume_spec (self : TcpConnection H) (h : self.InBounds) {total : Nat}
    (htotal : total ≤ self.unconsumed.length) :
    (self.consume total).InBounds ∧ (self.consume total).unconsumed = self.unconsumed.drop total := by
  obtain ⟨hordered, hinside, hroom⟩ := h
  rw [length_unconsumed] at htotal
  rw [unconsumed, unconsumed, memory.drop_read, consume]
  split_ifs with hall
  · refine ⟨⟨Nat.le_refl _, Nat.zero_le _, hroom⟩, ?_⟩
    have hnone : self.write_pos_ - self.read_pos_ - total = 0 := by omega
    rw [hnone]
    rfl
  · refine ⟨⟨?_, hinside, hroom⟩, ?_⟩
    · dsimp only
      omega
    · dsimp only
      rw [Nat.sub_add_eq]

/-- Bytes that a read has stored behind the unconsumed ones extend them. -/
theorem receive_spec {self : TcpConnection H} (h : self.InBounds) {chunk : Bytes}
    (hroom : chunk.length ≤ self.buffer_.size - self.write_pos_) :
    let after : TcpConnection H := { self.receive self.write_pos_ chunk with
      write_pos_ := self.write_pos_ + chunk.length }
    after.InBounds ∧ after.unconsumed = self.unconsumed ++ chunk := by
  obtain ⟨hordered, hinside, hpositive⟩ := h
  refine ⟨⟨?_, ?_, hpositive⟩, ?_⟩
  · dsimp only [receive]
    omega
  · dsimp only [receive]
    omega
  · have hend : self.write_pos_ = self.read_pos_ + (self.write_pos_ - self.read_pos_) := by omega
    have hlength : self.write_pos_ + chunk.length - self.read_pos_ =
        self.write_pos_ - self.read_pos_ + chunk.length := by omega
    have happend := memory.read_write_append self.buffer_.mem self.read_pos_
      (self.write_pos_ - self.read_pos_) chunk
    rw [← hend] at happend
    rw [unconsumed, unconsumed]
    dsimp only [receive]
    rw [hlength]
    exact happend

end octane.transport.TcpConnection
