/-
  DurableStore.Proofs.Wire.Locality
  ────────────────────────────────
  **A DECODER LOOKS AT NOTHING BEHIND WHAT IT READS.**

  Whatever bytes a decoder is given — cut off, out of order, with odd
  headers — if it returns a value, then the bytes before what it leaves
  over are all that it has looked at:

      Local read  — if `read bs` is done with `rest` left over, then
                    `bs = front ++ rest`, and `read` returns the same value
                    from `front` whatever follows it

  So what was read from the front of a log is read again when something
  else follows it (`exists_consumes`).  The opposite does not hold: what is
  incomplete, or a fault, may become another thing when more bytes follow.
-/
import DurableStore.Proofs.Wire.RoundTrip

namespace DurableStore.Wire

variable {α β : Type}

/-! ## §1. Locality. -/

/-- A decoder that returns a value has looked only at the bytes before what it left
over. -/
structure Local (read : Bytes → Verdict α) : Prop where
  front : ∀ {bs value rest}, read bs = .done value rest →
    ∃ front, bs = front ++ rest ∧ ∀ other, read (front ++ other) = .done value other

theorem local_done (value : α) : Local (fun bs => .done value bs) := by
  refine ⟨?_⟩
  intro bs value' rest h
  cases h
  exact ⟨[], rfl, fun other => rfl⟩

/-- A decoder that returns no value. -/
theorem local_malformed (error : FrameError) : Local (α := α) (fun _ => .malformed error) := by
  refine ⟨?_⟩
  intro bs value rest h
  cases h

/-- **Decoders in a row are local if each of them is.** -/
theorem Local.andThen {first : Bytes → Verdict α} {next : α → Bytes → Verdict β}
    (hfirst : Local first) (hnext : ∀ a, Local (next a)) :
    Local (fun bs => (first bs).andThen next) := by
  refine ⟨?_⟩
  intro bs value rest h
  obtain ⟨a, between, hdone, hrest⟩ := of_andThen h
  obtain ⟨front, rfl, hfront⟩ := hfirst.front hdone
  obtain ⟨back, rfl, hback⟩ := (hnext a).front hrest
  refine ⟨front ++ back, (List.append_assoc _ _ _).symm, ?_⟩
  intro other
  show (first (front ++ back ++ other)).andThen next = _
  rw [List.append_assoc, hfront]
  exact hback other

/-! ## §2. Lines. -/

theorem head?_append_cons (front : Bytes) (b : UInt8) (bs other : Bytes) :
    (front ++ b :: bs).head? = (front ++ b :: other).head? := by
  cases front <;> rfl

/-- Where a line ends is seen as soon as it does. -/
theorem lineEndFrom_split {bs : Bytes} {i n : Nat} (h : lineEndFrom i bs = some n) :
    ∃ front rest, bs = front ++ 13 :: 10 :: rest ∧ n = i + front.length
      ∧ ∀ other, lineEndFrom i (front ++ 13 :: 10 :: other) = some n := by
  induction bs generalizing i with
  | nil => cases h
  | cons b bs ih =>
    rw [lineEndFrom] at h
    split at h
    · -- the line ends here
      rename_i hend
      cases h
      obtain ⟨rfl, hhead⟩ := hend
      obtain ⟨rest, rfl⟩ := List.head?_eq_some_iff.1 hhead
      exact ⟨[], rest, rfl, rfl, fun other => rfl⟩
    · -- whether it ends here is told by the next byte, and that stays the same
      rename_i hnot
      obtain ⟨front, rest, rfl, rfl, hfront⟩ := ih h
      refine ⟨b :: front, rest, rfl, by rw [List.length_cons]; omega, ?_⟩
      intro other
      rw [List.cons_append, lineEndFrom, head?_append_cons front 13 _ (10 :: rest), if_neg hnot]
      exact hfront other

theorem local_number : Local number := by
  refine ⟨?_⟩
  intro bs value rest h
  unfold number at h
  split at h
  · split at h <;> cases h
  · rename_i i hline
    obtain ⟨front, after, rfl, hi, hfront⟩ := lineEndFrom_split hline
    obtain rfl : i = front.length := by omega
    split at h
    · rename_i n hread
      cases h
      have hdrop :
          ∀ other : Bytes, (front ++ 13 :: 10 :: other).drop (front.length + 2) = other := by
        intro other
        rw [← List.drop_drop, List.drop_left]
        rfl
      -- what is used is the line with its ending
      refine ⟨front ++ [13, 10], ?_, ?_⟩
      · rw [hdrop, List.append_assoc]
        rfl
      · intro other
        have hshape : front ++ [13, 10] ++ other = front ++ 13 :: 10 :: other :=
          List.append_assoc _ _ _
        rw [List.take_left] at hread
        unfold number
        rw [hshape, hfront]
        dsimp only
        rw [List.take_left, hread, hdrop]
    · cases h

theorem local_lengthAfter (marker : UInt8) : Local (lengthAfter marker) := by
  have hlength : ∀ n : Int, Local (fun rest =>
      if n < 0 then Verdict.malformed .invalidLength else .done n.toNat rest) := by
    intro n
    by_cases hneg : n < 0
    · simp only [if_pos hneg]
      exact local_malformed _
    · simp only [if_neg hneg]
      exact local_done n.toNat
  refine ⟨?_⟩
  intro bs value rest h
  cases bs with
  | nil => cases h
  | cons b bs =>
    rw [lengthAfter] at h
    split at h
    · rename_i hmarker
      obtain ⟨front, rfl, hfront⟩ := (local_number.andThen hlength).front h
      refine ⟨b :: front, rfl, ?_⟩
      intro other
      rw [List.cons_append, lengthAfter, if_pos hmarker]
      exact hfront other
    · cases h

/-! ## §3. Arguments and commands. -/

theorem local_payload (length : Nat) : Local (payload length) := by
  refine ⟨?_⟩
  intro bs value rest h
  unfold payload at h
  dsimp only at h
  split at h
  · cases h
  · rename_i hbytes
    have hlength : (bs.take length).length = length := by
      have hle := List.length_take_le length bs
      omega
    split at h
    · rename_i a b after hdrop
      split at h
      · -- the payload and its terminator are there; nothing else was looked at
        rename_i hend
        obtain ⟨rfl, rfl⟩ := hend
        cases h
        refine ⟨bs.take length ++ [13, 10], ?_, ?_⟩
        · rw [List.append_assoc, show [13, 10] ++ rest = (13 :: 10 :: rest : Bytes) from rfl, ← hdrop,
            List.take_append_drop]
        · intro other
          have hshape : bs.take length ++ [13, 10] ++ other = bs.take length ++ 13 :: 10 :: other :=
            List.append_assoc _ _ _
          have htake : (bs.take length ++ 13 :: 10 :: other).take length = bs.take length :=
            List.take_left' hlength
          have hrest : (bs.take length ++ 13 :: 10 :: other).drop length = 13 :: 10 :: other :=
            List.drop_left' hlength
          unfold payload
          rw [hshape, htake, hrest]
          dsimp only
          rw [if_neg hbytes, if_pos ⟨rfl, rfl⟩]
      · cases h
    · cases h

theorem local_argument : Local argument := (local_lengthAfter bulkMarker).andThen local_payload

theorem local_arguments (n : Nat) : Local (arguments n) := by
  induction n with
  | zero => exact local_done []
  | succ n ih =>
    exact local_argument.andThen fun arg => ih.andThen fun args => local_done (arg :: args)

/-- **Commands are read locally.** -/
theorem local_decode : Local decode := (local_lengthAfter arrayMarker).andThen local_arguments

theorem decode_nil : decode [] = .incomplete := rfl

/-- A command takes at least one byte. -/
theorem length_lt_of_decode {bs rest : Bytes} {command : Command}
    (h : decode bs = .done command rest) : rest.length < bs.length := by
  obtain ⟨front, rfl, hfront⟩ := local_decode.front h
  cases front with
  | nil =>
    -- then a command would be read from no bytes at all
    have hnil := hfront []
    rw [List.nil_append, decode_nil] at hnil
    cases hnil
  | cons b front =>
    rw [List.length_append, List.length_cons]
    omega

/-! ## §4. Runs. -/

/-- A budget that is large enough makes no difference. -/
theorem decodeUpTo_congr {budget budget' : Nat} {bs : Bytes} (h : bs.length ≤ budget)
    (h' : bs.length ≤ budget') : decodeUpTo budget bs = decodeUpTo budget' bs := by
  have hzero : ∀ n, decodeUpTo n [] = ⟨[], [], none⟩ := by
    intro n
    cases n <;> rfl
  induction budget generalizing bs budget' with
  | zero =>
    obtain rfl : bs = [] := List.eq_nil_of_length_eq_zero (by omega)
    rw [hzero, hzero]
  | succ budget ih =>
    cases budget' with
    | zero =>
      obtain rfl : bs = [] := List.eq_nil_of_length_eq_zero (by omega)
      rw [hzero, hzero]
    | succ budget' =>
      rw [decodeUpTo, decodeUpTo]
      cases hdecode : decode bs with
      | done command rest =>
        have hlt := length_lt_of_decode hdecode
        dsimp only
        rw [show decodeUpTo budget rest = decodeUpTo budget' rest from ih (by omega) (by omega)]
      | incomplete => rfl
      | malformed error => rfl

theorem decodeAll_of_done {bs rest : Bytes} {command : Command}
    (h : decode bs = .done command rest) :
    decodeAll bs = { decodeAll rest with commands := command :: (decodeAll rest).commands } := by
  have hlt := length_lt_of_decode h
  obtain ⟨n, hn⟩ : ∃ n, bs.length = n + 1 := ⟨bs.length - 1, by omega⟩
  have hrest : decodeUpTo n rest = decodeAll rest :=
    decodeUpTo_congr (by omega) (Nat.le_refl _)
  show decodeUpTo bs.length bs = _
  rw [hn, decodeUpTo, h]
  dsimp only
  rw [hrest]

theorem decodeAll_of_incomplete {bs : Bytes} (h : decode bs = .incomplete) :
    decodeAll bs = ⟨[], bs, none⟩ := by
  unfold decodeAll
  cases bs.length with
  | zero => rfl
  | succ n => rw [decodeUpTo, h]

theorem decodeAll_of_malformed {bs : Bytes} {error : FrameError}
    (h : decode bs = .malformed error) : decodeAll bs = ⟨[], bs, some error⟩ := by
  cases bs with
  | nil => cases h
  | cons b bs =>
    show decodeUpTo (bs.length + 1) (b :: bs) = _
    rw [decodeUpTo, h]

/-- The commands at the front of some bytes, and what they take. -/
structure Consumes (bs front : Bytes) : Prop where
  split : bs = front ++ (decodeAll bs).rest
  /-- They are read again, whatever follows them. -/
  again : ∀ other, decodeAll (front ++ other)
    = { decodeAll other with commands := (decodeAll bs).commands ++ (decodeAll other).commands }

/-- **What was read from the front of some bytes is read again**; by induction on
the length. -/
theorem exists_consumes (bs : Bytes) : ∃ front, Consumes bs front := by
  induction hlength : bs.length using Nat.strongRecOn generalizing bs with
  | ind n ih =>
    cases hdecode : decode bs with
    | done command rest =>
      have hlt := length_lt_of_decode hdecode
      obtain ⟨first, hbs, hfirst⟩ := local_decode.front hdecode
      obtain ⟨front, hrest, hfront⟩ := ih rest.length (by omega) rest rfl
      refine ⟨first ++ front, ?_, ?_⟩
      · rw [decodeAll_of_done hdecode, List.append_assoc, ← hrest]
        exact hbs
      · intro other
        rw [decodeAll_of_done hdecode, List.append_assoc,
          decodeAll_of_done (hfirst (front ++ other)), hfront]
        rfl
    | incomplete =>
      -- nothing was read, whatever these bytes may become
      have hnone := decodeAll_of_incomplete hdecode
      exact ⟨[], by rw [hnone]; rfl, fun other => by rw [hnone]; rfl⟩
    | malformed error =>
      have hnone := decodeAll_of_malformed hdecode
      exact ⟨[], by rw [hnone]; rfl, fun other => by rw [hnone]; rfl⟩

variable {bs front : Bytes}

theorem Consumes.append (h : Consumes bs front) (more : Bytes) :
    bs ++ more = front ++ ((decodeAll bs).rest ++ more) := by
  rw [← List.append_assoc, ← h.split]

theorem Consumes.taken (h : Consumes bs front) :
    bs.length - (decodeAll bs).rest.length = front.length := by
  have hboth := congrArg List.length h.split
  rw [List.length_append] at hboth
  omega

/-- A command that was written is taken whole. -/
theorem consumes_encode {command : Command} (h : Fits command) :
    Consumes (encode command) (encode command)
      ∧ (decodeAll (encode command)).commands = [command] := by
  have hread : ∀ other, decodeAll (encode command ++ other)
      = { decodeAll other with commands := command :: (decodeAll other).commands } :=
    fun other => decodeAll_of_done ((reads_decode h).whole other)
  have hone : decodeAll (encode command) = ⟨[command], [], none⟩ := by
    have hnil := hread []
    rw [List.append_nil] at hnil
    exact hnil
  refine ⟨⟨?_, ?_⟩, by rw [hone]⟩
  · rw [hone, List.append_nil]
  · intro other
    rw [hread, hone]
    rfl

/-- What takes nothing is nothing. -/
theorem Consumes.commands_of_nil (h : Consumes bs []) : (decodeAll bs).commands = [] := by
  have hnone : [] = (decodeAll bs).commands ++ [] := congrArg Run.commands (h.again [])
  rw [List.append_nil] at hnone
  exact hnone.symm

/-- **What takes something begins with a command.** -/
theorem Consumes.first (h : Consumes bs front) (hne : front ≠ []) :
    ∃ command first, first <+: front ∧ ∀ other, decode (first ++ other) = .done command other := by
  -- nothing of the front is left over, so there is no reason not to read on
  have hall : (decodeAll front).rest = [] := by
    have hfront := congrArg Run.rest (h.again [])
    rw [List.append_nil] at hfront
    exact hfront
  cases hdecode : decode front with
  | done command rest =>
    obtain ⟨first, hsplit, hfirst⟩ := local_decode.front hdecode
    exact ⟨command, first, ⟨rest, hsplit.symm⟩, hfirst⟩
  | incomplete =>
    rw [decodeAll_of_incomplete hdecode] at hall
    exact absurd hall hne
  | malformed error =>
    rw [decodeAll_of_malformed hdecode] at hall
    exact absurd hall hne

/-- What is left over is judged as the run tells. -/
theorem decode_rest (bs : Bytes) : decode (decodeAll bs).rest
    = match (decodeAll bs).fault with
      | none => .incomplete
      | some error => .malformed error := by
  induction hlength : bs.length using Nat.strongRecOn generalizing bs with
  | ind n ih =>
    cases hdecode : decode bs with
    | done command rest =>
      have hlt := length_lt_of_decode hdecode
      rw [decodeAll_of_done hdecode]
      exact ih rest.length (by omega) rest rfl
    | incomplete =>
      rw [decodeAll_of_incomplete hdecode]
      exact hdecode
    | malformed error =>
      rw [decodeAll_of_malformed hdecode]
      exact hdecode

/-- What is left over without a fault is incomplete. -/
theorem decode_rest_of_fault {bs : Bytes} (h : (decodeAll bs).fault = none) :
    decode (decodeAll bs).rest = .incomplete := by
  rw [decode_rest, h]

/-- Nothing that is left over begins with a command. -/
theorem decode_rest_ne_done (bs : Bytes) (command : Command) (rest : Bytes) :
    decode (decodeAll bs).rest ≠ .done command rest := by
  rw [decode_rest]
  split
  · simp
  · simp

end DurableStore.Wire
