/-
  DurableStore.Proofs.Journal.Boundaries
  ────────────────────────────────
  **WHERE THE PIECES OF A LOG END.**

  A log is read in pieces, and their boundaries fall anywhere.  The replay
  should not depend on them: what it finds should be what there is to find
  in the whole file.

      ofWhole bytes         — what is found in bytes that are all there
      CutsOff before after  — at this boundary a command is given up that
                              the bytes behind it complete

  It does depend on them, in exactly the case that a boundary cuts off a
  command (`ofPieces_eq_ofWhole_iff`): it falls into a header of more than
  twenty bytes, which is refused although nothing is wrong with it.  Then
  the log is taken for damaged, and everything from there on is lost.

  Main results:
    * `verdicts_final_iff` — what is read stays; a fault stays unless the
      bytes are hasty; the pieces make no difference unless a boundary
      cuts off a command;
    * `boundary_cuts_off` — an intact log that is taken for damaged.
-/
import DurableStore.Proofs.Wire.Finality
import DurableStore.Proofs.Journal.Repair

namespace DurableStore.Replay

open Wire

/-! ## §1. The whole log at once. -/

/-- What is found in the bytes of a log when they are decoded at once. -/
def ofWhole (bytes : Bytes) : Replay where
  commands := (decodeAll bytes).commands.filter fun command => !command.isEmpty
  truncated := !(decodeAll bytes).rest.isEmpty
  validLength := bytes.length - (decodeAll bytes).rest.length

variable {left front bs : Bytes}

theorem rest_ne_nil_of_fault {error : FrameError} (h : (decodeAll bs).fault = some error) :
    (decodeAll bs).rest ≠ [] := by
  intro hnil
  have hrest := decode_rest bs
  rw [h, hnil, decode_nil] at hrest
  cases hrest

theorem ofPieces_nil (bs : Bytes) : ofPieces bs [] = ofWhole bs := by
  have hlater : later (decodeAll bs) [] = ⟨[], !(decodeAll bs).rest.isEmpty, 0⟩ := by
    unfold later
    cases hfault : (decodeAll bs).fault with
    | none => rfl
    | some error => simpa using rest_ne_nil_of_fault hfault
  obtain ⟨front, hconsumes⟩ := exists_consumes bs
  rw [ofPieces_eq hconsumes, hlater, ← hconsumes.taken]
  simp [after, ofWhole]

/-- The first piece is all there is at first. -/
theorem ofPieces_cons (piece : Bytes) (pieces : List Bytes) :
    ofPieces [] (piece :: pieces) = ofPieces piece pieces := by
  have hnil : Consumes [] [] := ⟨rfl, fun _ => rfl⟩
  rw [ofPieces_eq hnil]
  show after [] 0 (ofPieces ([] ++ piece) pieces) = _
  simp [after]

/-- What was read from the front is found before what follows it. -/
theorem ofWhole_front (h : Consumes left front) (bs : Bytes) :
    ofWhole (front ++ bs) = after (decodeAll left).commands front.length (ofWhole bs) := by
  rw [← ofPieces_nil, ← ofPieces_nil]
  exact ofPieces_front h bs []

theorem after_inj {commands : List Command} {n : Nat} {a b : Replay} :
    after commands n a = after commands n b ↔ a = b := by
  constructor
  · intro h
    unfold after at h
    injection h with hcommands htruncated hlength
    cases a
    cases b
    simp at hcommands hlength
    simp_all
  · rintro rfl
    rfl

/-- Nothing is found in bytes that do not begin with a command. -/
theorem ofWhole_eq_nothing_iff (hne : bs ≠ []) :
    ofWhole bs = ⟨[], true, 0⟩ ↔ ∀ command rest, decode bs ≠ .done command rest := by
  constructor
  · intro h command rest hdone
    have hlength : bs.length - (decodeAll bs).rest.length = 0 := congrArg Replay.validLength h
    have hlt := length_lt_of_decode hdone
    obtain ⟨taken, hrest⟩ := exists_consumes rest
    have hle := congrArg List.length hrest.split
    rw [decodeAll_of_done hdone] at hlength
    rw [List.length_append] at hle
    dsimp only at hlength
    omega
  · intro h
    have hrun : (decodeAll bs).commands = [] ∧ (decodeAll bs).rest = bs := by
      cases hdecode : decode bs with
      | done command rest => exact absurd hdecode (h command rest)
      | incomplete => simp [decodeAll_of_incomplete hdecode]
      | malformed error => simp [decodeAll_of_malformed hdecode]
    unfold ofWhole
    rw [hrun.1, hrun.2, Nat.sub_self]
    simpa using hne

/-! ## §2. Boundaries. -/

/-- At the boundary between some bytes and those that follow them a command is given up
that is there. -/
structure CutsOff (before after : Bytes) : Prop where
  /-- The bytes end inside a header that is refused. -/
  hasty : Hasty (decodeAll before).rest
  /-- The command is complete with the bytes that follow. -/
  whole : ∃ command rest, decode ((decodeAll before).rest ++ after) = .done command rest

theorem cutsOff_front (h : Consumes left front) (before after : Bytes) :
    CutsOff (front ++ before) after ↔ CutsOff before after := by
  have hrest : (decodeAll (front ++ before)).rest = (decodeAll before).rest := by
    rw [h.again]
  constructor
  · intro hcuts
    exact ⟨hrest ▸ hcuts.hasty, hrest ▸ hcuts.whole⟩
  · intro hcuts
    exact ⟨hrest ▸ hcuts.hasty, hrest ▸ hcuts.whole⟩

/-- Behind bytes that are not at fault no boundary cuts off anything. -/
theorem not_cutsOff_of_fault (h : (decodeAll bs).fault = none) (after : Bytes) :
    ¬ CutsOff bs after := by
  intro hcuts
  have hfault := hcuts.hasty.decode_eq
  rw [decode_rest_of_fault h] at hfault
  cases hfault

/-- What a fault becomes a command with is at the end of hasty bytes. -/
theorem hasty_of_done {error : FrameError} (hfault : decode bs = .malformed error)
    {more rest : Bytes}
    {command : Command} (hdone : decode (bs ++ more) = .done command rest) : Hasty bs := by
  by_contra hhasty
  rw [finalBut_decode.final hfault hhasty more] at hdone
  cases hdone

/-- Where no command begins, none is cut off further on. -/
theorem not_cutsOff_of_not_done {before after : Bytes}
    (h : ∀ command rest, decode (before ++ after) ≠ .done command rest) :
    ¬ CutsOff before after := by
  intro hcuts
  have hrest : (decodeAll before).rest = before := by
    cases hdecode : decode before with
    | done command rest =>
      obtain ⟨first, rfl, hfirst⟩ := local_decode.front hdecode
      refine absurd ?_ (h command (rest ++ after))
      rw [List.append_assoc]
      exact hfirst (rest ++ after)
    | incomplete => rw [decodeAll_of_incomplete hdecode]
    | malformed error => rw [decodeAll_of_malformed hdecode]
  obtain ⟨command, rest, hdone⟩ := hcuts.whole
  rw [hrest] at hdone
  exact h command rest hdone

/-- A replay that has come to a fault misses nothing, unless the fault cuts off a command. -/
theorem ofWhole_eq_nothing_iff_of_fault {error : FrameError} (hfault : decode bs = .malformed error)
    (pieces : List Bytes) :
    ofWhole (bs ++ pieces.flatten) = ⟨[], true, 0⟩
      ↔ ∀ before after, pieces = before ++ after → ¬ CutsOff (bs ++ before.flatten) after.flatten := by
  have hne : bs ++ pieces.flatten ≠ [] := by
    intro hnil
    rw [(List.append_eq_nil_iff.1 hnil).1] at hfault
    cases hfault
  rw [ofWhole_eq_nothing_iff hne]
  constructor
  · intro h before after hpieces
    apply not_cutsOff_of_not_done
    rw [List.append_assoc, ← List.flatten_append, ← hpieces]
    exact h
  · intro h command rest hdone
    have hrest : (decodeAll bs).rest = bs := by rw [decodeAll_of_malformed hfault]
    apply h [] pieces rfl
    rw [List.flatten_nil, List.append_nil]
    exact ⟨hrest.symm ▸ hasty_of_done hfault hdone, command, rest, hrest.symm ▸ hdone⟩

/-- **The pieces make no difference unless a boundary cuts off a command**, by induction
on the pieces. -/
theorem ofPieces_eq_ofWhole_iff (pieces : List Bytes) (left : Bytes) :
    ofPieces left pieces = ofWhole (left ++ pieces.flatten)
      ↔ ∀ before after, pieces = before ++ after →
          ¬ CutsOff (left ++ before.flatten) after.flatten := by
  induction pieces generalizing left with
  | nil =>
    have hnone : ∀ before after : List Bytes, [] = before ++ after →
        ¬ CutsOff (left ++ before.flatten) after.flatten := by
      intro before after hpieces hcuts
      obtain ⟨rfl, rfl⟩ := List.append_eq_nil_iff.1 hpieces.symm
      obtain ⟨command, rest, hdone⟩ := hcuts.whole
      simp only [List.flatten_nil, List.append_nil] at hdone
      exact decode_rest_ne_done left command rest hdone
    rw [List.flatten_nil, List.append_nil, ofPieces_nil]
    exact ⟨fun _ => hnone, fun _ => rfl⟩
  | cons piece pieces ih =>
    obtain ⟨front, hconsumes⟩ := exists_consumes left
    rw [ofPieces_eq hconsumes, hconsumes.append, ofWhole_front hconsumes, after_inj]
    have hcuts : ∀ before after : List Bytes,
        CutsOff (left ++ before.flatten) after.flatten
          ↔ CutsOff ((decodeAll left).rest ++ before.flatten) after.flatten := by
      intro before after
      rw [hconsumes.append]
      exact cutsOff_front hconsumes _ _
    simp only [hcuts]
    cases hfault : (decodeAll left).fault with
    | some error =>
      have hrest : decode (decodeAll left).rest = .malformed error := by rw [decode_rest, hfault]
      have hlater : later (decodeAll left) (piece :: pieces) = ⟨[], true, 0⟩ := by
        unfold later
        rw [hfault]
      rw [hlater, eq_comm]
      exact ofWhole_eq_nothing_iff_of_fault hrest (piece :: pieces)
    | none =>
      have hlater : later (decodeAll left) (piece :: pieces)
          = ofPieces ((decodeAll left).rest ++ piece) pieces := by
        unfold later
        rw [hfault]
      rw [hlater, List.flatten_cons, ← List.append_assoc, ih]
      constructor
      · intro h before after hpieces
        cases before with
        | nil =>
          -- nothing is at fault before the piece
          have hrest := decodeAll_of_incomplete (decode_rest_of_fault hfault)
          rw [List.flatten_nil, List.append_nil]
          exact not_cutsOff_of_fault (by rw [hrest]) _
        | cons first before =>
          obtain ⟨rfl, hothers⟩ := List.cons.inj hpieces
          rw [List.flatten_cons, ← List.append_assoc]
          exact h before after hothers
      · intro h before after hpieces
        have hfirst := h (piece :: before) after (by rw [hpieces, List.cons_append])
        rw [List.flatten_cons, ← List.append_assoc] at hfirst
        exact hfirst

/-! ## §3. Verdicts. -/

/-- **When a verdict is final.**  A command that is read is read again, whatever follows.
A fault stays a fault whatever follows if and only if the bytes are not hasty.  And the
replay of a log that is read in pieces finds what there is in the whole of it if and
only if no boundary between the pieces cuts off a command. -/
theorem verdicts_final_iff (bs : Bytes) (pieces : List Bytes) :
    (∀ command rest, decode bs = .done command rest →
        ∀ more, decode (bs ++ more) = .done command (rest ++ more))
      ∧ (∀ error, decode bs = .malformed error →
        ((∀ more, ∃ fault, decode (bs ++ more) = .malformed fault) ↔ ¬ Hasty bs))
      ∧ (ofPieces [] pieces = ofWhole pieces.flatten
        ↔ ∀ before after, pieces = before ++ after → ¬ CutsOff before.flatten after.flatten) := by
  refine ⟨?_, ?_, ofPieces_eq_ofWhole_iff pieces []⟩
  · intro command rest hdone more
    obtain ⟨front, rfl, hfront⟩ := local_decode.front hdone
    rw [List.append_assoc]
    exact hfront (rest ++ more)
  · intro error hfault
    exact fault_final_iff hfault

/-- A command without arguments whose header has leading zeros. -/
def paddedPing : Bytes :=
  arrayMarker :: List.replicate 19 48 ++ [49] ++ crlf ++ bulk [80, 73, 78, 71]

/-- The command is read whatever follows it.  Its first 22 bytes, which end between the
two bytes that end the line, are a fault that is not final; in pieces that end there the
command is lost. -/
theorem verdicts_final_iff_paddedPing :
    (∀ more, decode (paddedPing ++ more) = .done [[80, 73, 78, 71]] more)
      ∧ decode (paddedPing.take 22) = .malformed .invalidLength
      ∧ ¬ (∀ more, ∃ fault, decode (paddedPing.take 22 ++ more) = .malformed fault)
      ∧ ofPieces [] [paddedPing.take 22, paddedPing.drop 22] ≠ ofWhole paddedPing := by
  have hdone : decode paddedPing = .done [[80, 73, 78, 71]] [] := by rfl
  have hfault : decode (paddedPing.take 22) = .malformed .invalidLength := by rfl
  have hhasty : Hasty (paddedPing.take 22) :=
    .count ⟨by decide, List.replicate 19 48 ++ [49], 1, .inr rfl, by rfl⟩
  refine ⟨?_, hfault, ?_, ?_⟩
  · exact (verdicts_final_iff paddedPing []).1 _ [] hdone
  · intro hfinal
    exact ((verdicts_final_iff (paddedPing.take 22) []).2.1 _ hfault).1 hfinal hhasty
  · intro hwhole
    have hnone := (verdicts_final_iff [] [paddedPing.take 22, paddedPing.drop 22]).2.2.1 hwhole
    have hrest : (decodeAll (paddedPing.take 22)).rest = paddedPing.take 22 := by
      rw [decodeAll_of_malformed hfault]
    refine hnone [paddedPing.take 22] [paddedPing.drop 22] rfl ⟨?_, [[80, 73, 78, 71]], [], ?_⟩
    · simpa [hrest] using hhasty
    · simpa [hrest] using hdone

/-- A command of 8170 bytes. -/
def longSet : Command := [[83, 69, 84], [107], List.replicate 8141 120]

/-- A log of two commands.  Its first piece of 8192 bytes ends inside the header of the
second. -/
def paddedLog : Bytes := encode longSet ++ paddedPing

theorem length_bulk (bytes : Bytes) :
    (bulk bytes).length = (Bytes.ofNat bytes.length).length + bytes.length + 5 := by
  simp [bulk, header, crlf]
  omega

theorem length_longSet : (encode longSet).length = 8170 := by
  unfold encode longSet
  simp only [List.flatMap_cons, List.flatMap_nil, List.append_nil, List.length_append, length_bulk,
    List.length_replicate]
  decide

theorem fits_longSet : Fits longSet := by
  refine ⟨by decide, ?_⟩
  intro arg harg
  have hlength : arg.length ≤ 8141 := by
    simp only [longSet, List.mem_cons, List.not_mem_nil, or_false] at harg
    rcases harg with rfl | rfl | rfl
    · decide
    · decide
    · rw [List.length_replicate]
  exact Nat.lt_of_le_of_lt hlength (by decide)

/-- **An intact log that is taken for damaged.**  The bytes of the second header that are
in the first piece are a fault, and with the bytes behind them a command.  Read at once
the log holds both commands and nothing else; the replay finds the first, gives up the
second and tells that the log is truncated. -/
theorem boundary_cuts_off :
    (decode (paddedPing.take 22) = .malformed .invalidLength
        ∧ decode (paddedPing.take 22 ++ paddedPing.drop 22) = .done [[80, 73, 78, 71]] [])
      ∧ ofBytes paddedLog = ⟨[longSet], true, 8170⟩
      ∧ ofWhole paddedLog = ⟨[longSet, [[80, 73, 78, 71]]], false, 8203⟩ := by
  obtain ⟨hconsumes, hcommands⟩ := consumes_encode fits_longSet
  have hpieces : Bytes.chunks pieceSize paddedLog
      = [encode longSet ++ paddedPing.take 22, paddedPing.drop 22] := by
    have hpiece : pieceSize = (encode longSet).length + 22 := by
      rw [length_longSet]
      rfl
    rw [Bytes.chunks_of_ne_nil (by decide) (by simp [paddedLog, encode_ne_nil])]
    have hrest : Bytes.chunks pieceSize (paddedPing.drop 22) = [paddedPing.drop 22] := by decide
    rw [paddedLog, hpiece, List.take_length_add_append, List.drop_length_add_append, ← hpiece,
      hrest]
  refine ⟨⟨by rfl, by rfl⟩, ?_, ?_⟩
  · unfold ofBytes
    rw [hpieces, ofPieces_cons, ofPieces_front hconsumes, hcommands, length_longSet]
    unfold ofPieces
    rfl
  · unfold paddedLog
    rw [ofWhole_front hconsumes, hcommands, length_longSet]
    rfl

end DurableStore.Replay
