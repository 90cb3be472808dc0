/-
  DurableStore.Proofs.Journal.Repair
  ────────────────────────────────
  **WHAT FOLLOWS THE READABLE PART OF A LOG IS READ.**

  A log may hold anything: it may be cut, or damaged in the middle, or end
  in bytes that no command begins with.  Its replay tells how long the part
  is that holds complete commands.  Where records are appended to exactly
  that part, the next replay returns its commands and the records:

      found.followedBy new  — what was found, and then new commands, with
                              nothing left over

  The log is read in pieces, and it depends on the pieces whether a long
  header is a fault.  But appending keeps all pieces up to the one that the
  readable part ends in, and in that piece every command of it is read
  locally.  The induction goes along the pieces (`reading_followed`).

  Main result:
    * `ofBytes_followed` — a repaired log that is written on.
-/
import DurableStore.Proofs.Wire.Locality

namespace DurableStore

/-! ## §1. Reading on. -/

namespace Replay

open Wire

theorem after_after (as bs : List Command) (m n : Nat) (later : Replay) :
    after as m (after bs n later) = after (as ++ bs) (m + n) later := by
  unfold after
  simp only [List.filter_append, List.append_assoc, Nat.add_assoc]

/-- What is found when some bytes have been read and others are still in the file. -/
def reading (left more : Bytes) : Replay := ofPieces left (Bytes.chunks pieceSize more)

/-- What was found, and then new commands, with nothing left over. -/
def followedBy (found : Replay) (new : List Command) : Replay where
  commands := found.commands ++ new.filter fun command => !command.isEmpty
  truncated := false
  validLength := found.validLength + (new.flatMap encode).length

theorem validLength_after (commands : List Command) (taken : Nat) (later : Replay) :
    (after commands taken later).validLength = taken + later.validLength := rfl

theorem after_followedBy (commands : List Command) (taken : Nat) (later : Replay)
    (new : List Command) :
    after commands taken (later.followedBy new) = (after commands taken later).followedBy new := by
  unfold after followedBy
  simp only [List.append_assoc, Nat.add_assoc]

/-- What a replay finds in the bytes that are there already, and what it finds later. -/
def later (run : Run) (pieces : List Bytes) : Replay :=
  match run.fault, pieces with
  | some _, _ => ⟨[], true, 0⟩
  | none, [] => ⟨[], !run.rest.isEmpty, 0⟩
  | none, piece :: pieces => ofPieces (run.rest ++ piece) pieces

/-- A replay that does not go on to another piece finds nothing more. -/
theorem later_cases (run : Run) (pieces : List Bytes) :
    (∃ error, run.fault = some error ∧ later run pieces = ⟨[], true, 0⟩)
      ∨ (run.fault = none ∧ pieces = [] ∧ later run pieces = ⟨[], !run.rest.isEmpty, 0⟩)
      ∨ ∃ piece others, run.fault = none ∧ pieces = piece :: others
        ∧ later run pieces = ofPieces (run.rest ++ piece) others := by
  unfold later
  cases hfault : run.fault with
  | some error => exact .inl ⟨error, rfl, rfl⟩
  | none =>
    cases pieces with
    | nil => exact .inr (.inl ⟨rfl, rfl, rfl⟩)
    | cons piece others => exact .inr (.inr ⟨piece, others, rfl, rfl, rfl⟩)

variable {left front : Bytes}

/-- **One piece.** -/
theorem ofPieces_eq (h : Consumes left front) (pieces : List Bytes) :
    ofPieces left pieces
      = after (decodeAll left).commands front.length (later (decodeAll left) pieces) := by
  rw [← h.taken]
  unfold ofPieces
  rfl

/-- Commands that are read from the front do not change how the rest is read. -/
theorem ofPieces_front (h : Consumes left front) (other : Bytes) (pieces : List Bytes) :
    ofPieces (front ++ other) pieces
      = after (decodeAll left).commands front.length (ofPieces other pieces) := by
  obtain ⟨taken, hother⟩ := exists_consumes other
  have hboth : Consumes (front ++ other) (front ++ taken) := by
    refine ⟨?_, ?_⟩
    · rw [h.again, List.append_assoc]
      exact congrArg (front ++ ·) hother.split
    · intro more
      rw [List.append_assoc, h.again, hother.again, h.again]
      simp only [List.append_assoc]
  rw [ofPieces_eq hboth, ofPieces_eq hother, after_after, h.again, List.length_append]
  rfl

/-! ### What is found in how many bytes. -/

/-- How a replay and the bytes that it reads are related. -/
structure Ranges (found : Replay) (bytes : Bytes) : Prop where
  le : found.validLength ≤ bytes.length
  /-- Nothing is found without a length. -/
  nothing : found.validLength = 0 → found.commands = []
  /-- Nothing is left over unless that is told. -/
  whole : found.truncated = false → found.validLength = bytes.length
  /-- What has a length begins with a command. -/
  first : 0 < found.validLength → ∃ command first, first <+: bytes
    ∧ first.length ≤ found.validLength ∧ ∀ other, decode (first ++ other) = .done command other

theorem ranges_nothing (bytes : Bytes) : Ranges ⟨[], true, 0⟩ bytes :=
  ⟨Nat.zero_le _, fun _ => rfl, (fun h => nomatch h), fun h => absurd h (Nat.lt_irrefl 0)⟩

theorem ranges_rest (rest : Bytes) : Ranges ⟨[], !rest.isEmpty, 0⟩ rest := by
  refine ⟨Nat.zero_le _, fun _ => rfl, ?_, fun h => absurd h (Nat.lt_irrefl 0)⟩
  intro h
  cases rest with
  | nil => rfl
  | cons b rest => cases h

theorem Ranges.after {found : Replay} {bytes : Bytes} (h : found.Ranges bytes)
    (hconsumes : Consumes left front) :
    (after (decodeAll left).commands front.length found).Ranges (front ++ bytes) := by
  refine ⟨?_, ?_, ?_, ?_⟩
  · show front.length + found.validLength ≤ (front ++ bytes).length
    have hle := h.le
    rw [List.length_append]
    omega
  · intro hzero
    have hsum : front.length + found.validLength = 0 := hzero
    obtain rfl : front = [] := List.eq_nil_of_length_eq_zero (by omega)
    show (decodeAll left).commands.filter _ ++ found.commands = []
    rw [hconsumes.commands_of_nil, h.nothing (by omega)]
    rfl
  · intro hwhole
    show front.length + found.validLength = (front ++ bytes).length
    rw [List.length_append, h.whole hwhole]
  · intro hpos
    -- the first command is the first of the front, or behind an empty front the first found
    by_cases hnil : front = []
    · subst hnil
      have hlater : 0 < found.validLength := by
        have hsum : 0 < 0 + found.validLength := hpos
        omega
      obtain ⟨command, first, hprefix, hle, hfirst⟩ := h.first hlater
      exact ⟨command, first, hprefix, Nat.le_trans hle (Nat.le_add_left _ _), hfirst⟩
    · obtain ⟨command, first, hprefix, hfirst⟩ := hconsumes.first hnil
      exact ⟨command, first, hprefix.trans (List.prefix_append _ _),
        Nat.le_trans hprefix.length_le (Nat.le_add_right _ _), hfirst⟩

/-- What is found later, if the other pieces are read as they should be. -/
theorem ranges_later {pieces : List Bytes}
    (h : ∀ piece others, pieces = piece :: others →
      ∀ left, (ofPieces left others).Ranges (left ++ others.flatten)) (run : Run) :
    (later run pieces).Ranges (run.rest ++ pieces.flatten) := by
  rcases later_cases run pieces with
    ⟨error, -, hfault⟩ | ⟨-, rfl, hend⟩ | ⟨piece, others, -, rfl, hnext⟩
  · rw [hfault]
    exact ranges_nothing _
  · rw [hend, List.flatten_nil, List.append_nil]
    exact ranges_rest _
  · rw [hnext, List.flatten_cons, ← List.append_assoc]
    exact h piece others rfl _

theorem ranges_step {pieces : List Bytes}
    (h : ∀ piece others, pieces = piece :: others →
      ∀ left, (ofPieces left others).Ranges (left ++ others.flatten)) (left : Bytes) :
    (ofPieces left pieces).Ranges (left ++ pieces.flatten) := by
  obtain ⟨front, hconsumes⟩ := exists_consumes left
  have hall := (ranges_later h (decodeAll left)).after hconsumes
  rw [← List.append_assoc, ← hconsumes.split] at hall
  rw [ofPieces_eq hconsumes]
  exact hall

/-- **Every replay**, by induction on the pieces. -/
theorem ranges_ofPieces (pieces : List Bytes) (left : Bytes) :
    (ofPieces left pieces).Ranges (left ++ pieces.flatten) := by
  induction pieces generalizing left with
  | nil =>
    refine ranges_step ?_ left
    intro first others heq
    cases heq
  | cons piece pieces ih =>
    refine ranges_step ?_ left
    intro first others heq
    cases heq
    exact ih

theorem ranges_reading (left more : Bytes) : (reading left more).Ranges (left ++ more) := by
  have hranges := ranges_ofPieces (Bytes.chunks pieceSize more) left
  rw [Bytes.flatten_chunks (by decide)] at hranges
  exact hranges

/-- What is found beyond an incomplete command begins with that command. -/
theorem length_lt_validLength {found : Replay} {rest more : Bytes}
    (h : found.Ranges (rest ++ more)) (hrest : decode rest = .incomplete)
    (hpos : 0 < found.validLength) : rest.length < found.validLength := by
  obtain ⟨command, first, hprefix, hle, hfirst⟩ := h.first hpos
  by_contra hlong
  obtain ⟨other, rfl⟩ : first <+: rest :=
    List.prefix_of_prefix_length_le hprefix (List.prefix_append _ _) (by omega)
  rw [hfirst] at hrest
  cases hrest

/-! ## §2. Logs that are written on. -/

variable {new : List Command}

/-- A replay goes on to the next piece of what is still in the file. -/
theorem later_of_ne_nil {run : Run} (hfault : run.fault = none) {more : Bytes} (h : more ≠ []) :
    later run (Bytes.chunks pieceSize more)
      = reading (run.rest ++ more.take pieceSize) (more.drop pieceSize) := by
  rw [Bytes.chunks_of_ne_nil (by decide) h]
  unfold later
  rw [hfault]
  rfl

/-- What a replay finds later, if it finds anything, it finds in the next piece. -/
theorem later_of_pos {run : Run} {more : Bytes}
    (h : 0 < (later run (Bytes.chunks pieceSize more)).validLength) :
    run.fault = none ∧ more ≠ [] := by
  rcases later_cases run (Bytes.chunks pieceSize more) with
    ⟨error, -, heq⟩ | ⟨-, -, heq⟩ | ⟨piece, others, hfault, hcons, -⟩
  · rw [heq] at h
    exact absurd h (Nat.lt_irrefl 0)
  · rw [heq] at h
    exact absurd h (Nat.lt_irrefl 0)
  · refine ⟨hfault, ?_⟩
    rintro rfl
    cases hcons

/-- New commands are read behind the commands of a piece. -/
theorem reading_behind (h : Consumes left front) (hfits : ∀ command ∈ new, Fits command)
    {stop : Nat} (hstop : front.length ≤ stop) :
    reading ((front ++ new.flatMap encode).take stop) ((front ++ new.flatMap encode).drop stop)
      = after (decodeAll left).commands front.length (ofCommands new []) := by
  rw [List.take_append, List.take_of_length_le hstop, List.drop_append,
    List.drop_of_length_le hstop, List.nil_append]
  unfold reading
  rw [ofPieces_front h]
  refine congrArg (after _ _) (ofPieces_flatMap hfits isPartial_nil ?_)
  rw [Bytes.flatten_chunks (by decide), List.take_append_drop, List.append_nil]

/-- **A piece that the readable part goes beyond** is read as it was, whatever is added
behind that part. -/
theorem reading_beyond (h : Consumes left front) (hfault : (decodeAll left).fault = none)
    {more : Bytes} (hne : more ≠ []) {n : Nat} (hlong : (decodeAll left).rest.length < n)
    (added : Bytes) :
    reading (((left ++ more).take (front.length + n) ++ added).take left.length)
        (((left ++ more).take (front.length + n) ++ added).drop left.length)
      = after (decodeAll left).commands front.length
          (reading
            ((((decodeAll left).rest ++ more).take n ++ added).take
              ((decodeAll left).rest.length + pieceSize))
            ((((decodeAll left).rest ++ more).take n ++ added).drop
              ((decodeAll left).rest.length + pieceSize))) := by
  have hvalid : ((decodeAll left).rest ++ more).take n
      = (decodeAll left).rest ++ more.take (n - (decodeAll left).rest.length) := by
    rw [List.take_append, List.take_of_length_le (Nat.le_of_lt hlong)]
  have htail : more.take (n - (decodeAll left).rest.length) ++ added ≠ [] := by
    intro hnil
    have hlength := congrArg List.length hnil
    have hpos := List.length_pos_iff.2 hne
    rw [List.length_append, List.length_take, List.length_nil] at hlength
    omega
  generalize more.take (n - (decodeAll left).rest.length) = beyond at hvalid htail
  have hleft : (left ++ more).take (front.length + n) ++ added = left ++ (beyond ++ added) := by
    rw [h.append, List.take_length_add_append, hvalid, ← h.append, List.append_assoc]
  rw [hleft, hvalid, List.take_left, List.drop_left, List.append_assoc,
    List.take_length_add_append, List.drop_length_add_append, ← later_of_ne_nil hfault htail]
  exact ofPieces_eq h _

/-- **New commands that follow the readable part are read**, by induction on what is
still in the file.  `stop` is where the piece ends that is being read. -/
theorem reading_followed (hfits : ∀ command ∈ new, Fits command) (left more : Bytes) (stop : Nat)
    (hstop : left.length ≤ stop) (hmore : more ≠ [] → stop = left.length) :
    reading (((left ++ more).take (reading left more).validLength ++ new.flatMap encode).take stop)
        (((left ++ more).take (reading left more).validLength ++ new.flatMap encode).drop stop)
      = (reading left more).followedBy new := by
  -- the pieces of what is kept are cut at other places than those of the whole file, so the
  -- induction is not on the list of pieces
  induction hlength : more.length using Nat.strongRecOn generalizing left more stop with
  | ind n ih =>
    obtain ⟨front, hconsumes⟩ := exists_consumes left
    have hranges : (later (decodeAll left) (Bytes.chunks pieceSize more)).Ranges
        ((decodeAll left).rest ++ (Bytes.chunks pieceSize more).flatten) :=
      ranges_later (fun _ others _ => ranges_ofPieces others) (decodeAll left)
    rw [Bytes.flatten_chunks (by decide)] at hranges
    have hreading : reading left more = after (decodeAll left).commands front.length
        (later (decodeAll left) (Bytes.chunks pieceSize more)) := ofPieces_eq hconsumes _
    rw [hreading, validLength_after, ← after_followedBy]
    rcases Nat.eq_zero_or_pos (later (decodeAll left) (Bytes.chunks pieceSize more)).validLength with
      hnothing | hpos
    · -- the readable part ends in this piece
      have hnew : (later (decodeAll left) (Bytes.chunks pieceSize more)).followedBy new
          = ofCommands new [] := by
        unfold followedBy ofCommands
        rw [hranges.nothing hnothing, hnothing, List.nil_append, Nat.zero_add]
        rfl
      have hfront : front.length ≤ left.length := by
        have hboth := congrArg List.length hconsumes.split
        rw [List.length_append] at hboth
        omega
      rw [hnothing, Nat.add_zero, hconsumes.append, List.take_left, hnew]
      exact reading_behind hconsumes hfits (by omega)
    · -- it goes on, so the rest of this piece is the beginning of a command
      obtain ⟨hfault, hne⟩ := later_of_pos hpos
      have hlong := length_lt_validLength hranges (decode_rest_of_fault hfault) hpos
      have hsize := List.length_pos_iff.2 hne
      have hpiece : 0 < pieceSize := by decide
      rw [hmore hne, reading_beyond hconsumes hfault hne hlong]
      rw [later_of_ne_nil hfault hne]
      have hfollowed := ih (more.drop pieceSize).length
        (by rw [List.length_drop]; omega)
        ((decodeAll left).rest ++ more.take pieceSize) (more.drop pieceSize)
        ((decodeAll left).rest.length + pieceSize)
        (by rw [List.length_append, List.length_take]; omega)
        (by
          intro hrest
          have hpositive := List.length_pos_iff.2 hrest
          rw [List.length_drop] at hpositive
          rw [List.length_append, List.length_take]
          omega) rfl
      rw [List.append_assoc, List.take_append_drop] at hfollowed
      rw [hfollowed]

/-- **A repaired log that is written on.**  What follows the readable part of a log is
read, whatever followed it before. -/
theorem ofBytes_followed (hfits : ∀ command ∈ new, Fits command) (bytes : Bytes) :
    ofBytes (bytes.take (ofBytes bytes).validLength ++ new.flatMap encode)
      = (ofBytes bytes).followedBy new :=
  reading_followed hfits [] bytes 0 (Nat.le_refl 0) fun _ => rfl

end Replay

end DurableStore
