import KingdoKernel.Buddy.Basic
import KingdoKernel.Lib.Circular

/-!
# The receive buffer of the UART

Model of the buffer of received bytes in `arch/aarch64/plat/raspi3/uart/uart.c`, in the configuration
for the PL011 (`USE_mini_uart` is `0`). `uart_irq_handler` is given the byte it reads from the data
register; what it sends back, and the registers that `enable_uart_irq` sets up, are not modelled. An
access outside `buffer` is `Fault.wild`.

`uart_refines_fifo`: under any interleaving of interrupts and reads the buffer is a queue of 15 bytes
that drops the oldest one to make room.
-/

namespace KingdoKernel

/-- `uart_buffer_t`. -/
structure UartBuffer where
  buffer : ℕ → UInt8
  readPos : ℕ
  putPos : ℕ

namespace UartBuffer

/-- `UART_BUF_LEN`. -/
def uartBufLen : ℕ := 16

/-- `NB_UART_NRET`, `(char)-1`. -/
def nbUartNret : UInt8 := 255

/-- `pos += 1`, back to `0` at `UART_BUF_LEN`. -/
def nextPos (pos : ℕ) : ℕ := if pos + 1 = uartBufLen then 0 else pos + 1

/-- `enable_uart_irq`, which leaves the bytes as they are. -/
def enableUartIrq (s : UartBuffer) : UartBuffer := ⟨s.buffer, 0, 0⟩

/-- `uart_irq_handler`. -/
def uartIrqHandler (s : UartBuffer) (input : UInt8) : Except Fault UartBuffer :=
  if uartBufLen ≤ s.putPos then .error .wild
  else
    let s : UartBuffer := ⟨Function.update s.buffer s.putPos input, s.readPos, s.putPos⟩
    let s : UartBuffer := ⟨s.buffer, s.readPos, nextPos s.putPos⟩
    if s.readPos = s.putPos then .ok ⟨s.buffer, nextPos s.readPos, s.putPos⟩ else .ok s

/-- `nb_uart_recv`. -/
def nbUartRecv (s : UartBuffer) : Except Fault (UInt8 × UartBuffer) :=
  if s.readPos = s.putPos then .ok (nbUartNret, s)
  else if uartBufLen ≤ s.readPos then .error .wild
  else .ok (s.buffer s.readPos, ⟨s.buffer, nextPos s.readPos, s.putPos⟩)

/-- The buffer driven by interrupts and reads. The output of a read is the byte it returns, unless it
takes the branch for an empty buffer. -/
def machine : Machine Fault UartBuffer (Ledger.Op UInt8) (Option UInt8) where
  enabled _ _ := True
  exec s op :=
    match op with
    | .put input => do
      let s ← s.uartIrqHandler input
      pure (none, s)
    | .get => do
      let (ch, s') ← s.nbUartRecv
      pure (if s.readPos = s.putPos then none else some ch, s')

/-- The buffer holds the bytes of `q`. -/
def Contains (s : UartBuffer) (q : List UInt8) : Prop :=
  Circular.Rep uartBufLen s.buffer s.readPos s.putPos q

variable {s : UartBuffer} {q : List UInt8}

/-- An interrupt, with room for the byte. -/
lemma Contains.handler (h : s.Contains q) (hlen : q.length < uartBufLen - 1) (input : UInt8) :
    ∃ s', s.uartIrqHandler input = .ok s' ∧ s'.Contains (q ++ [input]) := by
  have hfull : s.readPos ≠ nextPos s.putPos := by
    intro e
    have := h.read_eq_succ_put.1 e
    omega
  refine ⟨⟨Function.update s.buffer s.putPos input, s.readPos, nextPos s.putPos⟩, ?_, ?_⟩
  · rw [uartIrqHandler, if_neg (not_le.2 h.put_lt)]
    exact if_neg hfull
  · exact h.push (by omega)

/-- An interrupt while the buffer is full: the position of the reader moves as well. -/
lemma Contains.handler_full {b : UInt8} (h : s.Contains (b :: q)) (hlen : q.length + 2 = uartBufLen)
    (input : UInt8) : ∃ s', s.uartIrqHandler input = .ok s' ∧ s'.Contains (q ++ [input]) := by
  have hfull : s.readPos = nextPos s.putPos :=
    h.read_eq_succ_put.2 (by rw [List.length_cons]; omega)
  refine ⟨⟨Function.update s.buffer s.putPos input, nextPos s.readPos, nextPos s.putPos⟩, ?_, ?_⟩
  · rw [uartIrqHandler, if_neg (not_le.2 h.put_lt)]
    exact if_pos hfull
  · exact h.push_full hlen

/-- A read of the empty buffer changes nothing. -/
lemma Contains.recv_nil (h : s.Contains []) : s.nbUartRecv = .ok (nbUartNret, s) := by
  rw [nbUartRecv, if_pos (h.read_eq_put.2 rfl)]

/-- A read returns the oldest byte. -/
lemma Contains.recv_cons {b : UInt8} (h : s.Contains (b :: q)) :
    ∃ s', s.nbUartRecv = .ok (b, s') ∧ s'.Contains q := by
  obtain ⟨hb, hpop⟩ := h.pop
  refine ⟨⟨s.buffer, nextPos s.readPos, s.putPos⟩, ?_, hpop⟩
  rw [nbUartRecv, if_neg fun e => List.cons_ne_nil _ _ (h.read_eq_put.1 e),
    if_neg (not_le.2 h.read_lt), hb]

/-- Interrupts and reads do to the buffer what they do to the queue. -/
lemma machine_simulates : machine.Simulates (Ledger.machine Fault (uartBufLen - 1))
    fun s l => s.Contains l.queue := by
  rintro s ⟨past, queue⟩ op h -
  cases op with
  | put input =>
    cases queue with
    | nil =>
      obtain ⟨s', e, h'⟩ := h.handler (show 0 < uartBufLen - 1 by decide) input
      refine ⟨none, s', _, ?_, trivial, rfl, h'⟩
      simp only [machine, e, ok_bind, pure_eq_ok]
    | cons b q =>
      by_cases hlen : (b :: q).length < uartBufLen - 1
      · obtain ⟨s', e, h'⟩ := h.handler hlen input
        refine ⟨none, s', _, ?_, trivial, rfl, ?_⟩
        · simp only [machine, e, ok_bind, pure_eq_ok]
        · rw [Ledger.put]
          simp only [if_pos hlen]
          exact h'
      · have hroom : q.length + 1 < uartBufLen := h.room
        rw [List.length_cons] at hlen
        obtain ⟨s', e, h'⟩ := h.handler_full (by omega) input
        refine ⟨none, s', _, ?_, trivial, rfl, ?_⟩
        · simp only [machine, e, ok_bind, pure_eq_ok]
        · rw [Ledger.put]
          simp only [List.length_cons, if_neg hlen]
          exact h'
  | get =>
    cases queue with
    | nil =>
      refine ⟨none, s, _, ?_, trivial, rfl, h⟩
      simp only [machine, h.recv_nil, ok_bind, pure_eq_ok, if_pos (h.read_eq_put.2 rfl)]
    | cons b q =>
      obtain ⟨s', e, h'⟩ := h.recv_cons
      refine ⟨some b, s', _, ?_, trivial, rfl, h'⟩
      have hne : s.readPos ≠ s.putPos := fun e => List.cons_ne_nil _ _ (h.read_eq_put.1 e)
      simp only [machine, e, ok_bind, pure_eq_ok, if_neg hne]

/-- The buffer after some calls, against a queue and its past. -/
structure Delivers (ops : List (Ledger.Op UInt8)) (os : List (Option UInt8)) (s : UartBuffer)
    (l : Ledger UInt8) : Prop where
  /-- the cells between the positions hold the queue -/
  cells : ∀ i b, l.queue[i]? = some b → s.buffer ((s.readPos + i) % uartBufLen) = b
  length : (s.readPos + l.queue.length) % uartBufLen = s.putPos ∧ l.queue.length ≤ uartBufLen - 1
  positions : s.readPos < uartBufLen ∧ s.putPos < uartBufLen
  /-- a read takes the branch for an empty buffer exactly when the queue is empty -/
  empty_iff : s.readPos = s.putPos ↔ l.queue = []
  /-- and otherwise returns the oldest byte and removes it -/
  oldest : ∀ b q, l.queue = b :: q → ∃ s', s.nbUartRecv = .ok (b, s') ∧ s'.Contains q
  /-- the bytes that have arrived have left in order, or are in the queue -/
  ordered : Ledger.arrivals ops = l.past.map Prod.fst ++ l.queue
  /-- those that were not dropped are the ones that reads have returned, in order -/
  returned : os.reduceOption = l.withFate .delivered
  /-- every further interrupt and read returns -/
  total : ∀ op, ∃ o s', machine.exec s op = .ok (o, s')

/-- The bytes of the queue, in their cells. -/
lemma Contains.cells {i : ℕ} {b : UInt8} (h : s.Contains q) (hi : q[i]? = some b) :
    s.buffer ((s.readPos + i) % uartBufLen) = b := by
  have hlt : i < q.length := (List.getElem?_eq_some_iff.1 hi).1
  rw [← h.cells_eq, Circular.window, List.getElem?_map, List.getElem?_range hlt] at hi
  simpa using hi

/-- Whatever the bytes in the buffer at the start, every run of interrupts and reads is one of the
queue of 15 bytes that drops its oldest byte when one arrives while it is full. -/
theorem uart_refines_fifo (s₀ : UartBuffer) (ops : List (Ledger.Op UInt8)) (os : List (Option UInt8))
    (s : UartBuffer) (r : machine.Run s₀.enableUartIrq ops os s) :
    ∃ l, (Ledger.machine Fault (uartBufLen - 1)).Run ⟨[], []⟩ ops os l ∧ Delivers ops os s l := by
  have h₀ : s₀.enableUartIrq.Contains [] := Circular.Rep.nil s₀.buffer (show 0 < uartBufLen by decide)
  obtain ⟨l, rl, h⟩ := machine_simulates.run r (t := ⟨[], []⟩) h₀
  obtain ⟨hseen, hdel⟩ := Ledger.arrived_eq rl
  refine ⟨l, rl, fun i b hi => h.cells hi, ⟨h.put_eq.symm, Nat.le_pred_of_lt h.room⟩,
    ⟨h.read_lt, h.put_lt⟩, h.read_eq_put, fun b q e => ?_, hseen.symm, hdel.symm, fun op => ?_⟩
  · rw [e] at h
    exact h.recv_cons
  · obtain ⟨o, s', -, e, -⟩ := machine_simulates s l op h trivial
    exact ⟨o, s', e⟩

/-- Seventeen bytes arrive, of which the first two are dropped, and two are read. -/
def overflowing : List (Ledger.Op UInt8) :=
  [.put 65, .put 66, .put 67, .put 68, .put 69, .put 70, .put 71, .put 72, .put 73, .put 74, .put 75,
    .put 76, .put 77, .put 78, .put 79, .put 80, .put 81, .get, .get]

/-- The buffer overflows, the position of the writer wraps around, and the reader gets the third byte. -/
theorem uart_refines_fifo_overflow :
    ∃ s, machine.Run (enableUartIrq ⟨fun _ => 0, 3, 7⟩) overflowing
        (List.replicate 17 none ++ [some 67, some 68]) s ∧ s.readPos = 4 ∧ s.putPos = 1 ∧
      ∃ l, (Ledger.machine Fault (uartBufLen - 1)).Run ⟨[], []⟩ overflowing
          (List.replicate 17 none ++ [some 67, some 68]) l ∧
        Delivers overflowing (List.replicate 17 none ++ [some 67, some 68]) s l := by
  have step {s s₁ s' : UartBuffer} {op : Ledger.Op UInt8} {o ops os} (e : machine.exec s op = .ok (o, s₁))
      (r : machine.Run s₁ ops os s') : machine.Run s (op :: ops) (o :: os) s' := .cons trivial e r
  have r : ∃ s, machine.Run (enableUartIrq ⟨fun _ => 0, 3, 7⟩) overflowing
      (List.replicate 17 none ++ [some 67, some 68]) s ∧ s.readPos = 4 ∧ s.putPos = 1 :=
    ⟨_, step rfl <| step rfl <| step rfl <| step rfl <| step rfl <| step rfl <| step rfl <| step rfl <|
      step rfl <| step rfl <| step rfl <| step rfl <| step rfl <| step rfl <| step rfl <| step rfl <|
      step rfl <| step rfl <| step rfl .nil, rfl, rfl⟩
  obtain ⟨s, r, hread, hput⟩ := r
  exact ⟨s, r, hread, hput, uart_refines_fifo _ _ _ _ r⟩

end UartBuffer

end KingdoKernel
