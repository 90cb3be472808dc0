/-
  DurableStore.Proofs.Wire.RoundTrip
  ────────────────────────────────
  **WHAT IS ENCODED IS DECODED.**

  A decoder READS a value from some bytes when it returns the value in front
  of whatever follows them, and waits for more on every shorter beginning:

      Reads read bytes value

  Decoders that run one after the other read the bytes one after the other
  (`Reads.andThen`), so the form of a command is followed part by part: a
  number on its line, a header, the bytes of an argument, the arguments.

  Main results:
    * `reads_decode` — a command is read from its wire form;
    * `decodeAll_flatMap` — a run of commands is, up to a command that has
      not arrived yet;
    * `Replay.ofBytes_flatMap` — and so is a log, wherever it is cut into
      pieces.
-/
import DurableStore.Journal.Replay
import DurableStore.Proofs.Bytes.Decimal

namespace DurableStore.Wire

/-! ## §1. Reading exactly so many bytes. -/

/-- A decoder returns a value from exactly these bytes. -/
structure Reads {α : Type} (read : Bytes → Verdict α) (bytes : Bytes) (value : α) : Prop where
  /-- Whatever follows the bytes is left over. -/
  whole : ∀ rest, read (bytes ++ rest) = .done value rest
  /-- A beginning of the bytes is not enough, and no fault. -/
  part : ∀ front, front <+: bytes → front ≠ bytes → read front = .incomplete

variable {α β : Type}

theorem reads_done (value : α) : Reads (fun bs => .done value bs) [] value := by
  refine ⟨fun rest => rfl, ?_⟩
  intro front hfront hne
  exact absurd (List.prefix_nil.1 hfront) hne

/-- **Decoders in a row read bytes in a row.** -/
theorem Reads.andThen {first : Bytes → Verdict α} {g : α → Bytes → Verdict β}
    {as bs : Bytes} {a : α} {b : β} (ha : Reads first as a) (hb : Reads (g a) bs b) :
    Reads (fun input => (first input).andThen g) (as ++ bs) b := by
  refine ⟨?_, ?_⟩
  · intro rest
    rw [List.append_assoc, ha.whole]
    exact hb.whole rest
  · intro front hfront hne
    by_cases hlen : as.length ≤ front.length
    · -- the first value is there, and the second is not
      obtain ⟨more, rfl⟩ := List.prefix_of_prefix_length_le (List.prefix_append as bs) hfront hlen
      rw [ha.whole]
      refine hb.part more ((List.prefix_append_right_inj as).1 hfront) ?_
      rintro rfl
      exact hne rfl
    · have hshort : front <+: as :=
        List.prefix_of_prefix_length_le hfront (List.prefix_append as bs) (by omega)
      rw [ha.part front hshort (by rintro rfl; omega)]
      rfl

/-- A value that is only passed on under another form. -/
theorem Reads.map {read : Bytes → Verdict α} {bs : Bytes} {a : α} (f : α → β)
    (h : Reads read bs a) :
    Reads (fun input => (read input).andThen fun value rest => .done (f value) rest) bs (f a) := by
  have hboth := h.andThen (g := fun value rest => .done (f value) rest) (reads_done (f a))
  rw [List.append_nil] at hboth
  exact hboth

/-! ## §2. Numbers on a line. -/

theorem lineEndFrom_append {ds : Bytes} (h : ∀ b ∈ ds, b ≠ 13) (i : Nat) (rest : Bytes) :
    lineEndFrom i (ds ++ 13 :: 10 :: rest) = some (i + ds.length) := by
  induction ds generalizing i with
  | nil => rfl
  | cons d ds ih =>
    obtain ⟨hd, hds⟩ := List.forall_mem_cons.1 h
    rw [List.cons_append, lineEndFrom, if_neg (fun hand => hd hand.1), ih hds, List.length_cons]
    exact congrArg some (by omega)

/-- A carriage return alone ends no line. -/
theorem lineEndFrom_of_initial {ds front : Bytes} (h : ∀ b ∈ ds, b ≠ 13)
    (hfront : front <+: ds ++ [13]) (i : Nat) : lineEndFrom i front = none := by
  induction ds generalizing front i with
  | nil =>
    cases front with
    | nil => rfl
    | cons b front =>
      obtain ⟨rfl, hnil⟩ := List.cons_prefix_cons.1 hfront
      rw [List.prefix_nil.1 hnil]
      rfl
  | cons d ds ih =>
    obtain ⟨hd, hds⟩ := List.forall_mem_cons.1 h
    cases front with
    | nil => rfl
    | cons b front =>
      obtain ⟨rfl, hrest⟩ := List.cons_prefix_cons.1 hfront
      rw [lineEndFrom, if_neg (fun hand => hd hand.1)]
      exact ih hds hrest (i + 1)

theorem ne_cr_of_digits {ds : Bytes} (h : ds.AllDigits) : ∀ b ∈ ds, b ≠ 13 := by
  rintro b hb rfl
  exact absurd (h 13 hb).1 (by decide)

/-- **A number is read from its line.**  The digits of a 64-bit number and a
carriage return are not more than a header may have. -/
theorem reads_number {n : Nat} (hn : n < lengthBound) :
    Reads number (Bytes.ofNat n ++ crlf) (n : Int) := by
  have hdigits := ne_cr_of_digits (Bytes.allDigits_ofNat n)
  have hlength : (Bytes.ofNat n).length ≤ 19 := by
    rw [Bytes.length_ofNat_le_iff (by decide)]
    exact Nat.lt_trans hn (by decide)
  refine ⟨?_, ?_⟩
  · intro rest
    have hline : Bytes.ofNat n ++ crlf ++ rest = Bytes.ofNat n ++ 13 :: 10 :: rest :=
      List.append_assoc _ _ _
    unfold number
    rw [hline, lineEndFrom_append hdigits, Nat.zero_add]
    dsimp only
    rw [List.take_left, Bytes.toInt?_ofNat hn, List.drop_append, Nat.add_sub_cancel_left,
      List.drop_of_length_le (by omega)]
    rfl
  · intro front hfront hne
    -- without the line feed no line has ended, and nineteen digits are no overlong header
    have hlen : front.length < (Bytes.ofNat n ++ crlf).length := by
      have := hfront.length_le
      have hneq := mt hfront.eq_of_length hne
      omega
    rw [List.length_append, show crlf.length = 2 from rfl] at hlen
    have hline : Bytes.ofNat n ++ crlf = (Bytes.ofNat n ++ [13]) ++ [10] := by
      rw [List.append_assoc]
      rfl
    rw [hline] at hfront
    have hshort : front <+: Bytes.ofNat n ++ [13] :=
      List.prefix_of_prefix_length_le hfront (List.prefix_append _ _)
        (by rw [List.length_append, List.length_singleton]; omega)
    unfold number
    rw [lineEndFrom_of_initial hdigits hshort]
    dsimp only
    rw [if_neg (by unfold maxHeader; omega)]

/-- **A length is read from its header.** -/
theorem reads_header {n : Nat} (marker : UInt8) (hn : n < lengthBound) :
    Reads (lengthAfter marker) (header marker n) n := by
  have hline : Reads (fun input => (number input).andThen fun n rest =>
      if n < 0 then .malformed .invalidLength else .done n.toNat rest)
      (Bytes.ofNat n ++ crlf ++ []) n := by
    refine (reads_number hn).andThen ?_
    have hneg : ¬ (n : Int) < 0 := by omega
    simp only [if_neg hneg, Int.toNat_natCast]
    exact reads_done n
  rw [List.append_nil] at hline
  refine ⟨?_, ?_⟩
  · intro rest
    unfold header
    rw [List.cons_append, lengthAfter, if_pos rfl]
    exact hline.whole rest
  · intro front hfront hne
    unfold header at hfront hne
    cases front with
    | nil => rfl
    | cons b front =>
      obtain ⟨rfl, hrest⟩ := List.cons_prefix_cons.1 hfront
      rw [lengthAfter, if_pos rfl]
      exact hline.part front hrest (by rintro rfl; exact hne rfl)

/-! ## §3. Arguments and commands. -/

theorem reads_payload (arg : Bytes) : Reads (payload arg.length) (arg ++ crlf) arg := by
  refine ⟨?_, ?_⟩
  · intro rest
    have hline : arg ++ crlf ++ rest = arg ++ 13 :: 10 :: rest := List.append_assoc _ _ _
    unfold payload
    rw [hline, List.take_left, List.drop_left]
    dsimp only
    rw [if_neg (Nat.lt_irrefl _), if_pos ⟨rfl, rfl⟩]
  · intro front hfront hne
    have hlen : front.length < (arg ++ crlf).length := by
      have := hfront.length_le
      have hneq := mt hfront.eq_of_length hne
      omega
    rw [List.length_append, show crlf.length = 2 from rfl] at hlen
    unfold payload
    dsimp only
    split
    · rfl
    · -- the bytes are there and the end of the line is not
      rename_i hbytes
      rw [List.length_take] at hbytes
      have hdrop : (front.drop arg.length).length < 2 := by
        rw [List.length_drop]
        omega
      split
      · rename_i hcons
        rw [hcons, List.length_cons, List.length_cons] at hdrop
        omega
      · rfl

theorem reads_argument {arg : Bytes} (h : arg.length < lengthBound) :
    Reads argument (bulk arg) arg := by
  unfold bulk
  rw [List.append_assoc]
  exact (reads_header bulkMarker h).andThen (reads_payload arg)

theorem reads_arguments {args : List Bytes} (h : ∀ arg ∈ args, arg.length < lengthBound) :
    Reads (arguments args.length) (args.flatMap bulk) args := by
  induction args with
  | nil => exact reads_done []
  | cons arg args ih =>
    obtain ⟨harg, hargs⟩ := List.forall_mem_cons.1 h
    rw [List.flatMap_cons]
    exact (reads_argument harg).andThen ((ih hargs).map (arg :: ·))

/-- A command whose argument count and argument lengths fit in a length. -/
structure Fits (command : Command) : Prop where
  count : command.length < lengthBound
  args : ∀ arg ∈ command, arg.length < lengthBound

/-- **A command is read from its wire form.** -/
theorem reads_decode {command : Command} (h : Fits command) :
    Reads decode (encode command) command :=
  (reads_header arrayMarker h.count).andThen (reads_arguments h.args)

theorem encode_ne_nil (command : Command) : encode command ≠ [] := by
  unfold encode header
  exact List.cons_ne_nil _ _

/-! ## §4. Runs of commands. -/

/-- Some, but not all, of the bytes of a command. -/
def IsPartial (bs : Bytes) : Prop := ∃ command, Fits command ∧ bs <+: encode command ∧
  bs ≠ encode command

theorem isPartial_nil : IsPartial [] := by
  refine ⟨[], ⟨?_, ?_⟩, List.nil_prefix, (encode_ne_nil []).symm⟩
  · decide
  · intro arg harg
    exact absurd harg List.not_mem_nil

theorem decode_of_isPartial {bs : Bytes} (h : IsPartial bs) : decode bs = .incomplete := by
  obtain ⟨command, hfits, hfront, hne⟩ := h
  exact (reads_decode hfits).part bs hfront hne

/-- A reader with a sufficient budget returns the complete commands and leaves
the incomplete one. -/
theorem decodeUpTo_flatMap {commands : List Command} {tail : Bytes}
    (hfits : ∀ command ∈ commands, Fits command) (htail : IsPartial tail) {budget : Nat}
    (hbudget : commands.length ≤ budget) :
    decodeUpTo budget (commands.flatMap encode ++ tail) = ⟨commands, tail, none⟩ := by
  induction commands generalizing budget with
  | nil =>
    rw [List.flatMap_nil, List.nil_append]
    cases budget with
    | zero => rfl
    | succ budget =>
      rw [decodeUpTo, decode_of_isPartial htail]
  | cons command commands ih =>
    obtain ⟨hfit, hrest⟩ := List.forall_mem_cons.1 hfits
    rw [List.length_cons] at hbudget
    obtain ⟨budget, rfl⟩ : ∃ k, budget = k + 1 := ⟨budget - 1, by omega⟩
    rw [List.flatMap_cons, List.append_assoc, decodeUpTo, (reads_decode hfit).whole]
    dsimp only
    rw [ih hrest (by omega)]

theorem length_le_length_flatMap (commands : List Command) :
    commands.length ≤ (commands.flatMap encode).length := by
  induction commands with
  | nil => exact Nat.le_refl _
  | cons command commands ih =>
    have hpos := List.length_pos_iff.2 (encode_ne_nil command)
    rw [List.flatMap_cons, List.length_append, List.length_cons]
    omega

/-- **A run of commands is read up to the incomplete one.** -/
theorem decodeAll_flatMap {commands : List Command} {tail : Bytes}
    (hfits : ∀ command ∈ commands, Fits command) (htail : IsPartial tail) :
    decodeAll (commands.flatMap encode ++ tail) = ⟨commands, tail, none⟩ := by
  refine decodeUpTo_flatMap hfits htail ?_
  rw [List.length_append]
  exact Nat.le_add_right_of_le (length_le_length_flatMap commands)

/-- A beginning of a run of commands is a shorter run and part of the next
command. -/
theorem split_of_initial {commands : List Command} {tail front : Bytes}
    (hfits : ∀ command ∈ commands, Fits command) (htail : IsPartial tail)
    (hfront : front <+: commands.flatMap encode ++ tail) :
    ∃ before after part, commands = before ++ after ∧ IsPartial part
      ∧ front = before.flatMap encode ++ part := by
  induction commands generalizing front with
  | nil =>
    obtain ⟨command, hfit, hinitial, hne⟩ := htail
    rw [List.flatMap_nil, List.nil_append] at hfront
    refine ⟨[], [], front, rfl, ⟨command, hfit, hfront.trans hinitial, ?_⟩, rfl⟩
    rintro rfl
    exact hne (hinitial.eq_of_length_le hfront.length_le)
  | cons command commands ih =>
    obtain ⟨hfit, hrest⟩ := List.forall_mem_cons.1 hfits
    rw [List.flatMap_cons, List.append_assoc] at hfront
    by_cases hlen : (encode command).length ≤ front.length
    · -- the first command is whole
      obtain ⟨more, rfl⟩ :=
        List.prefix_of_prefix_length_le (List.prefix_append _ _) hfront hlen
      obtain ⟨before, after, part, rfl, hpart, rfl⟩ :=
        ih hrest ((List.prefix_append_right_inj _).1 hfront)
      refine ⟨command :: before, after, part, rfl, hpart, ?_⟩
      rw [List.flatMap_cons, List.append_assoc]
    · -- the cut is inside the first command
      have hshort : front <+: encode command :=
        List.prefix_of_prefix_length_le hfront (List.prefix_append _ _) (by omega)
      refine ⟨[], command :: commands, front, rfl, ⟨command, hfit, hshort, ?_⟩, rfl⟩
      rintro rfl
      exact hlen (Nat.le_refl _)

end DurableStore.Wire

namespace DurableStore.Replay

open Wire

/-! ## §5. Logs. -/

/-- What is found in complete commands that an incomplete one follows. -/
def ofCommands (commands : List Command) (tail : Bytes) : Replay where
  commands := commands.filter fun command => !command.isEmpty
  truncated := !tail.isEmpty
  validLength := (commands.flatMap encode).length

/-- **Where a log is cut into pieces makes no difference.** -/
theorem ofPieces_flatMap {commands : List Command} {tail left : Bytes} {pieces : List Bytes}
    (hfits : ∀ command ∈ commands, Fits command) (htail : IsPartial tail)
    (hbytes : left ++ pieces.flatten = commands.flatMap encode ++ tail) :
    ofPieces left pieces = ofCommands commands tail := by
  induction pieces generalizing commands left with
  | nil =>
    rw [List.flatten_nil, List.append_nil] at hbytes
    unfold ofPieces
    rw [hbytes, decodeAll_flatMap hfits htail]
    unfold after ofCommands
    dsimp only
    rw [List.append_nil, List.length_append, Nat.add_sub_cancel, Nat.add_zero]
  | cons piece pieces ih =>
    have hfront : left <+: commands.flatMap encode ++ tail := ⟨_, hbytes⟩
    obtain ⟨before, later, part, rfl, hpart, rfl⟩ := split_of_initial hfits htail hfront
    obtain ⟨hbefore, hlater⟩ := List.forall_mem_append.1 hfits
    rw [List.flatten_cons, List.flatMap_append, List.append_assoc, List.append_assoc] at hbytes
    have hnext : (part ++ piece) ++ pieces.flatten = later.flatMap encode ++ tail := by
      rw [List.append_assoc]
      exact List.append_cancel_left hbytes
    unfold ofPieces
    rw [decodeAll_flatMap hbefore hpart]
    dsimp only
    rw [ih hlater hnext]
    unfold after ofCommands
    dsimp only
    rw [List.filter_append, List.length_append, Nat.add_sub_cancel, List.flatMap_append,
      List.length_append]

/-- **A log is read back**: its commands in order, up to the incomplete one. -/
theorem ofBytes_flatMap {commands : List Command} {tail : Bytes}
    (hfits : ∀ command ∈ commands, Fits command) (htail : IsPartial tail) :
    ofBytes (commands.flatMap encode ++ tail) = ofCommands commands tail := by
  refine ofPieces_flatMap hfits htail ?_
  rw [List.nil_append, Bytes.flatten_chunks (by decide)]

end DurableStore.Replay

namespace DurableStore

/-! ## §6. Whatever is read fits. -/

namespace Wire

/-- Decoders in a row are done when both are. -/
theorem of_andThen {α β : Type} {v : Verdict α} {next : α → Bytes → Verdict β} {b : β}
    {rest : Bytes} (h : v.andThen next = .done b rest) :
    ∃ a between, v = .done a between ∧ next a between = .done b rest := by
  cases v with
  | done a between => exact ⟨a, between, rfl, h⟩
  | incomplete => cases h
  | malformed error => cases h

theorem lt_of_number {bs rest : Bytes} {i : Int} (h : number bs = .done i rest) :
    i < (lengthBound : Int) := by
  unfold number at h
  split at h
  · split at h <;> cases h
  · split at h
    · rename_i hread
      cases h
      exact (Bytes.toInt?_range hread).2
    · cases h

theorem lt_of_lengthAfter {marker : UInt8} {bs rest : Bytes} {n : Nat}
    (h : lengthAfter marker bs = .done n rest) : n < lengthBound := by
  unfold lengthAfter at h
  split at h
  · cases h
  · split at h
    · obtain ⟨i, between, hnumber, hlength⟩ := of_andThen h
      have hlt := lt_of_number hnumber
      split at hlength
      · cases hlength
      · cases hlength
        have hbound : (0 : Int) < lengthBound := by decide
        omega
    · cases h

/-- An argument that was read fits. -/
theorem lt_of_argument {bs rest arg : Bytes} (h : argument bs = .done arg rest) :
    arg.length < lengthBound := by
  obtain ⟨length, between, hlength, hpayload⟩ := of_andThen h
  have hlt := lt_of_lengthAfter hlength
  unfold payload at hpayload
  dsimp only at hpayload
  split at hpayload
  · cases hpayload
  · split at hpayload
    · split at hpayload
      · cases hpayload
        exact Nat.lt_of_le_of_lt (List.length_take_le _ _) hlt
      · cases hpayload
    · cases hpayload

/-- Arguments that were read fit, by induction on their number. -/
theorem of_arguments {n : Nat} {bs rest : Bytes} {args : Command}
    (h : arguments n bs = .done args rest) :
    args.length = n ∧ ∀ arg ∈ args, arg.length < lengthBound := by
  induction n generalizing bs args rest with
  | zero =>
    cases h
    exact ⟨rfl, fun arg harg => absurd harg List.not_mem_nil⟩
  | succ n ih =>
    obtain ⟨first, between, hfirst, hothers⟩ := of_andThen h
    obtain ⟨others, after, hrest, hdone⟩ := of_andThen hothers
    obtain ⟨hlength, hfit⟩ := ih hrest
    cases hdone
    exact ⟨congrArg (· + 1) hlength, List.forall_mem_cons.2 ⟨lt_of_argument hfirst, hfit⟩⟩

/-- **A command that was read fits.** -/
theorem fits_of_decode {bs rest : Bytes} {command : Command} (h : decode bs = .done command rest) :
    Fits command := by
  obtain ⟨n, between, hcount, hargs⟩ := of_andThen h
  obtain ⟨hlength, hfit⟩ := of_arguments hargs
  exact ⟨hlength ▸ lt_of_lengthAfter hcount, hfit⟩

theorem fits_of_mem_decodeUpTo {budget : Nat} {bs : Bytes} :
    ∀ command ∈ (decodeUpTo budget bs).commands, Fits command := by
  induction budget generalizing bs with
  | zero => exact fun command hmem => absurd hmem List.not_mem_nil
  | succ budget ih =>
    unfold decodeUpTo
    split
    · rename_i hdecode
      exact List.forall_mem_cons.2 ⟨fits_of_decode hdecode, ih⟩
    · exact fun command hmem => absurd hmem List.not_mem_nil
    · exact fun command hmem => absurd hmem List.not_mem_nil

end Wire

namespace Replay

theorem fits_of_mem_ofPieces {pieces : List Bytes} {left : Bytes} :
    ∀ command ∈ (ofPieces left pieces).commands, Wire.Fits command := by
  have hread : ∀ {left : Bytes}, ∀ command ∈ (Wire.decodeAll left).commands.filter
      (fun command => !command.isEmpty), Wire.Fits command :=
    fun command hmem => Wire.fits_of_mem_decodeUpTo command (List.mem_filter.1 hmem).1
  have hnone : ∀ command ∈ ([] : List Command), Wire.Fits command :=
    fun command hmem => absurd hmem List.not_mem_nil
  induction pieces generalizing left with
  | nil =>
    unfold ofPieces
    refine List.forall_mem_append.2 ⟨hread, ?_⟩
    cases (Wire.decodeAll left).fault with
    | some error => exact hnone
    | none => exact hnone
  | cons piece pieces ih =>
    unfold ofPieces
    refine List.forall_mem_append.2 ⟨hread, ?_⟩
    cases (Wire.decodeAll left).fault with
    | some error => exact hnone
    | none => exact ih

/-- **The commands that are found in a log fit**, whatever its bytes are. -/
theorem fits_of_mem_ofBytes {bytes : Bytes} :
    ∀ command ∈ (ofBytes bytes).commands, Wire.Fits command :=
  fits_of_mem_ofPieces

end Replay

theorem Disk.fits_of_replay {d : Disk} {path : Path} {replay : Replay}
    (h : d.replay path = .ok replay) : ∀ command ∈ replay.commands, Wire.Fits command := by
  unfold Disk.replay at h
  cases hread : d.read path with
  | error error =>
    rw [hread] at h
    cases h
  | ok found =>
    rw [hread] at h
    cases found with
    | none =>
      cases h
      exact fun command hmem => absurd hmem List.not_mem_nil
    | some bytes =>
      cases h
      exact Replay.fits_of_mem_ofBytes

end DurableStore
