/-
  DurableStore.Proofs.Journal.Interruption
  ────────────────────────────────
  **A LOG THAT WAS CUT.**

  When the writing of a log is interrupted, the file holds a beginning of
  what was to be written, and the end of it may fall anywhere: into a
  header, into an argument, between the two bytes that end a line.  The
  reader gets even that in pieces of whatever lengths.  It makes no
  difference:

      endOf commands i  — where the `i`-th of some commands ends that are
                          written one after the other

  A replay returns exactly the commands that end within the cut, and tells
  whether anything is left over (`ofPieces_of_cut`).
-/
import DurableStore.Proofs.Command.Stream

namespace DurableStore

/-! ## §1. Where commands end. -/

namespace Wire

/-- Where the `i`-th of some commands ends, when they are written one after the
other. -/
def endOf (commands : List Command) (i : Nat) : Nat :=
  ((commands.take (i + 1)).flatMap encode).length

theorem endOf_append_of_lt {before : List Command} {i : Nat} (h : i < before.length)
    (after : List Command) : endOf (before ++ after) i = endOf before i := by
  unfold endOf
  rw [List.take_append_of_le_length h]

theorem endOf_le_length (commands : List Command) (i : Nat) :
    endOf commands i ≤ (commands.flatMap encode).length := by
  have hsplit : (commands.flatMap encode).length
      = endOf commands i + ((commands.drop (i + 1)).flatMap encode).length := by
    unfold endOf
    rw [← List.length_append, ← List.flatMap_append, List.take_append_drop]
  omega

theorem length_lt_endOf {before after : List Command} {command : Command} {i : Nat}
    (h : before.length ≤ i) :
    (before.flatMap encode).length + (encode command).length
      ≤ endOf (before ++ command :: after) i := by
  obtain ⟨j, rfl⟩ : ∃ j, i = before.length + j := ⟨i - before.length, by omega⟩
  unfold endOf
  rw [Nat.add_assoc, List.take_length_add_append, List.take_succ_cons, List.flatMap_append,
    List.flatMap_cons, List.length_append, List.length_append]
  omega

/-- What is left over of a run of commands is shorter than the next of them. -/
theorem length_lt_of_isPartial {part : Bytes} {command : Command} {commands : List Command}
    (hpart : IsPartial part) (hfits : Fits command)
    (hfront : part <+: (command :: commands).flatMap encode) :
    part.length < (encode command).length := by
  by_contra hlong
  rw [List.flatMap_cons] at hfront
  obtain ⟨more, rfl⟩ : encode command <+: part :=
    List.prefix_of_prefix_length_le (List.prefix_append _ _) hfront (by omega)
  -- the command would be read from what is left over
  have hread := (reads_decode hfits).whole more
  rw [decode_of_isPartial hpart] at hread
  cases hread

/-- **Exactly the commands before the incomplete one end within what there is.** -/
theorem lt_length_iff_endOf_le {before after : List Command} {part : Bytes}
    (hfits : ∀ command ∈ after, Fits command) (hpart : IsPartial part)
    (hfront : part <+: after.flatMap encode) {i : Nat} (hi : i < (before ++ after).length) :
    i < before.length
      ↔ endOf (before ++ after) i ≤ (before.flatMap encode).length + part.length := by
  constructor
  · intro hlt
    have hend := endOf_le_length before i
    rw [endOf_append_of_lt hlt]
    omega
  · intro hend
    by_contra hle
    cases after with
    | nil =>
      rw [List.append_nil] at hi
      exact hle hi
    | cons command after =>
      -- the first command that is not there ends behind what is left over
      have hshort := length_lt_of_isPartial hpart (hfits command List.mem_cons_self) hfront
      have hlong : (before.flatMap encode).length + (encode command).length
          ≤ endOf (before ++ command :: after) i := length_lt_endOf (by omega)
      omega

end Wire

/-! ## §2. Replays. -/

namespace Replay

open Wire

/-- What is found in commands that have a name, up to an incomplete one. -/
theorem ofCommands_of_nonempty {commands : List Command}
    (hnonempty : ∀ command ∈ commands, command ≠ []) (tail : Bytes) :
    ofCommands commands tail = ⟨commands, !tail.isEmpty, (commands.flatMap encode).length⟩ := by
  have hkept : (commands.filter fun command => !command.isEmpty) = commands := by
    refine List.filter_eq_self.2 ?_
    intro command hmem
    simpa using hnonempty command hmem
  unfold ofCommands
  rw [hkept]

/-- **An interruption loses only the commands that it cut off.**  The log may end
anywhere, and it may be read in any pieces. -/
theorem ofPieces_of_cut {commands : List Command} (hfits : ∀ command ∈ commands, Fits command)
    (hnonempty : ∀ command ∈ commands, command ≠ []) {n : Nat}
    (hn : n ≤ (commands.flatMap encode).length) {pieces : List Bytes}
    (hpieces : pieces.flatten = (commands.flatMap encode).take n) :
    ∃ k ≤ commands.length,
      (∀ i < commands.length, i < k ↔ endOf commands i ≤ n)
        ∧ ofPieces [] pieces
            = { commands := commands.take k
                truncated := decide (n ≠ ((commands.take k).flatMap encode).length)
                validLength := ((commands.take k).flatMap encode).length } := by
  have hcut : (commands.flatMap encode).take n <+: commands.flatMap encode ++ [] := by
    rw [List.append_nil]
    exact List.take_prefix n _
  -- the commands that are there, those that are not, and some bytes of the first of these
  obtain ⟨before, after, part, rfl, hpart, hfront⟩ := split_of_initial hfits isPartial_nil hcut
  have hlength : n = (before.flatMap encode).length + part.length := by
    have hboth := congrArg List.length hfront
    rw [List.length_take, List.length_append] at hboth
    omega
  have hrest : part <+: after.flatMap encode := by
    have hprefix := List.take_prefix n ((before ++ after).flatMap encode)
    rw [hfront, List.flatMap_append] at hprefix
    exact (List.prefix_append_right_inj _).1 hprefix
  refine ⟨before.length, by simp, ?_, ?_⟩
  · intro i hi
    rw [hlength]
    exact lt_length_iff_endOf_le (fun command hmem => hfits command (by simp [hmem])) hpart hrest hi
  · have hread : ofPieces [] pieces = ofCommands before part := by
      refine ofPieces_flatMap (fun command hmem => hfits command (by simp [hmem])) hpart ?_
      rw [List.nil_append, hpieces, hfront]
    rw [hread, ofCommands_of_nonempty fun command hmem => hnonempty command (by simp [hmem]),
      List.take_left, hlength]
    cases part with
    | nil => simp
    | cons b part => simp

/-- Two commands, the second with an argument that looks like one. -/
def twoCommands : List Command :=
  [[Bytes.ofString "PING"], [Bytes.ofString "ECHO", Bytes.ofString "*1\r\n$4\r\n"]]

/-- A log that is cut within that argument, and read in two pieces. -/
theorem ofPieces_of_cut_twoCommands :
    ofPieces []
        [Bytes.ofString "*1\r\n$4\r\nPI", Bytes.ofString "NG\r\n*2\r\n$4\r\nECHO\r\n$8\r\n*1\r\n$"]
      = ⟨[[Bytes.ofString "PING"]], true, 14⟩ := by
  have hpieces : [Bytes.ofString "*1\r\n$4\r\nPI",
      Bytes.ofString "NG\r\n*2\r\n$4\r\nECHO\r\n$8\r\n*1\r\n$"].flatten
      = (twoCommands.flatMap encode).take 37 := by decide
  have hfits : ∀ command ∈ twoCommands, Fits command :=
    List.forall_mem_cons.2 ⟨fits_of_short (by decide) (by decide) (by simp),
      List.forall_mem_singleton.2 (fits_of_short (by decide) (by decide) (by decide))⟩
  obtain ⟨k, hk, hends, hread⟩ := ofPieces_of_cut hfits (by decide) (by decide) hpieces
  have hlength : twoCommands.length = 2 := rfl
  have hfirst := (hends 0 (by decide)).2 (by decide)
  have hsecond := mt (hends 1 (by decide)).1 (by decide)
  obtain rfl : k = 1 := by omega
  rw [hread]
  decide

end Replay

end DurableStore
