/-
  DurableStore.Proofs.Wire.Finality
  ────────────────────────────────
  **WHICH VERDICTS ARE FINAL.**

  A reader is given the front of some bytes and more of them later.  What it
  reads then, it reads again (`local_decode`).  A fault is another matter:
  an unfinished header of more than twenty bytes is refused, while a
  finished one may have any length, since a number may have leading zeros.
  So more bytes may turn a fault into a command.  That happens in one case
  only:

      Unended line — more than twenty bytes of a length of which nothing
                     but the end of the line is missing
      Hasty bs     — bytes that end inside such a line

  Main results:
    * `finalBut_decode` — every fault but that of hasty bytes stays what it
      is, whatever follows;
    * `Hasty.resolves` — that of hasty bytes does not.
-/
import DurableStore.Proofs.Wire.Locality

namespace DurableStore

/-! ## §1. The front of a number. -/

namespace Bytes

theorem digitsFrom?_append (acc : Nat) (as bs : Bytes) :
    digitsFrom? acc (as ++ bs) = (digitsFrom? acc as).bind fun n => digitsFrom? n bs := by
  induction as generalizing acc with
  | nil => rfl
  | cons b as ih =>
    rw [List.cons_append, digitsFrom?, digitsFrom?]
    cases digit? b with
    | none => rfl
    | some d => exact ih (10 * acc + d)

theorem le_of_digitsFrom? {acc n : Nat} {bs : Bytes} (h : digitsFrom? acc bs = some n) :
    acc ≤ n := by
  induction bs generalizing acc with
  | nil =>
    cases h
    omega
  | cons b bs ih =>
    rw [digitsFrom?] at h
    cases hdigit : digit? b with
    | none => simp [hdigit] at h
    | some d =>
      rw [hdigit] at h
      have hle := ih h
      omega

/-- The first digits of a number spell a number that is not greater. -/
theorem digitsValue?_of_append {as bs : Bytes} {n : Nat} (hne : as ≠ [])
    (h : digitsValue? (as ++ bs) = some n) : ∃ m, m ≤ n ∧ digitsValue? as = some m := by
  cases as with
  | nil => exact absurd rfl hne
  | cons a as =>
    rw [List.cons_append, digitsValue?, ← List.cons_append, digitsFrom?_append] at h
    rw [digitsValue?]
    cases hfront : digitsFrom? 0 (a :: as) with
    | none => simp [hfront] at h
    | some m =>
      rw [hfront] at h
      exact ⟨m, le_of_digitsFrom? h, rfl⟩

theorem toNat?_cons_iff {bound n : Nat} {b : UInt8} {bs : Bytes} :
    toNat? bound (b :: bs) = some n
      ↔ digitsValue? (if b = 43 then bs else b :: bs) = some n ∧ n < bound := by
  by_cases hplus : b = 43
  · subst hplus
    rw [if_pos rfl]
    cases hdigits : digitsValue? bs with
    | none => simp [toNat?, hdigits]
    | some m =>
      simp [toNat?, hdigits]
      omega
  · rw [if_neg hplus]
    cases hdigits : digitsValue? (b :: bs) with
    | none => simp [toNat?, hplus, hdigits]
    | some m =>
      simp [toNat?, hplus, hdigits]
      omega

/-- A length has no minus sign, unless it is zero. -/
theorem toInt?_cons_iff {bits n : Nat} {b : UInt8} {bs : Bytes} :
    toInt? bits (b :: bs) = some (n : Int)
      ↔ if b = 45 then digitsValue? bs = some 0 ∧ n = 0
        else toNat? (Nat.pow 2 (bits - 1)) (b :: bs) = some n := by
  by_cases hminus : b = 45
  · subst hminus
    rw [if_pos rfl, toInt?]
    cases digitsValue? bs with
    | none => simp
    | some m =>
      have hpos : 0 < Nat.pow 2 (bits - 1) := Nat.pow_pos (by decide)
      dsimp only
      split
      · -- a magnitude in range: its negation is a length only if it is zero
        simp only [Option.some.injEq]
        omega
      · simp only [Option.some.injEq]
        constructor
        · intro h
          cases h
        · intro h
          omega
  · rw [if_neg hminus]
    unfold toInt?
    split
    · rename_i heq
      exact absurd (List.cons.inj heq).1 hminus
    · cases toNat? (Nat.pow 2 (bits - 1)) (b :: bs) with
      | none => simp
      | some m => simp

/-- **The front of a length is a length**, if it is more than a sign. -/
theorem toInt?_of_append {bits n : Nat} {as bs : Bytes} (hlength : 1 < as.length)
    (h : toInt? bits (as ++ bs) = some (n : Int)) : ∃ m : Nat, toInt? bits as = some (m : Int) := by
  cases as with
  | nil => exact absurd hlength (by decide)
  | cons a as =>
    have has : as ≠ [] := by
      rintro rfl
      exact absurd hlength (Nat.lt_irrefl 1)
    rw [List.cons_append, toInt?_cons_iff] at h
    by_cases hminus : a = 45
    · rw [if_pos hminus] at h
      obtain ⟨m, hm, hvalue⟩ := digitsValue?_of_append has h.1
      obtain rfl : m = 0 := by omega
      exact ⟨0, toInt?_cons_iff.2 (by rw [if_pos hminus]; exact ⟨hvalue, rfl⟩)⟩
    · rw [if_neg hminus, toNat?_cons_iff] at h
      obtain ⟨hdigits, hlt⟩ := h
      have hfront : ∃ m, m ≤ n ∧ digitsValue? (if a = 43 then as else a :: as) = some m := by
        by_cases hplus : a = 43
        · rw [if_pos hplus] at hdigits ⊢
          exact digitsValue?_of_append has hdigits
        · rw [if_neg hplus, ← List.cons_append] at hdigits
          rw [if_neg hplus]
          exact digitsValue?_of_append (List.cons_ne_nil a as) hdigits
      obtain ⟨m, hm, hvalue⟩ := hfront
      refine ⟨m, toInt?_cons_iff.2 ?_⟩
      rw [if_neg hminus, toNat?_cons_iff]
      exact ⟨hvalue, by omega⟩

theorem ne_cr_of_digitsFrom? {acc n : Nat} {bs : Bytes} (h : digitsFrom? acc bs = some n) :
    ∀ b ∈ bs, b ≠ 13 := by
  induction bs generalizing acc with
  | nil => simp
  | cons b bs ih =>
    rw [digitsFrom?] at h
    cases hdigit : digit? b with
    | none => simp [hdigit] at h
    | some d =>
      rw [hdigit] at h
      refine List.forall_mem_cons.2 ⟨?_, ih h⟩
      rintro rfl
      cases hdigit

theorem ne_cr_of_digitsValue? {n : Nat} {bs : Bytes} (h : digitsValue? bs = some n) :
    ∀ b ∈ bs, b ≠ 13 := by
  cases bs with
  | nil => simp
  | cons b bs => exact ne_cr_of_digitsFrom? h

/-- A length holds no carriage return. -/
theorem ne_cr_of_toInt? {bits n : Nat} {bs : Bytes} (h : toInt? bits bs = some (n : Int)) :
    ∀ b ∈ bs, b ≠ 13 := by
  cases bs with
  | nil => simp
  | cons b bs =>
    rw [toInt?_cons_iff] at h
    split at h
    · rename_i hminus
      exact List.forall_mem_cons.2 ⟨by rw [hminus]; decide, ne_cr_of_digitsValue? h.1⟩
    · rw [toNat?_cons_iff] at h
      split at h
      · rename_i hplus
        exact List.forall_mem_cons.2 ⟨by rw [hplus]; decide, ne_cr_of_digitsValue? h.1⟩
      · exact ne_cr_of_digitsValue? h.1

end Bytes

namespace Wire

/-! ## §2. Lines that do not end. -/

/-- More than twenty bytes of a length: nothing but the end of the line is missing, or
the second byte of it. -/
structure Unended (line : Bytes) : Prop where
  long : maxHeader < line.length
  length : ∃ (text : Bytes) (n : Nat),
    (line = text ∨ line = text ++ [13]) ∧ Bytes.toInt? 64 text = some (n : Int)

variable {line bs : Bytes}

theorem lineEndFrom_ne_none (front rest : Bytes) (i : Nat) :
    lineEndFrom i (front ++ 13 :: 10 :: rest) ≠ none := by
  induction front generalizing i with
  | nil => simp [lineEndFrom]
  | cons b front ih =>
    rw [List.cons_append, lineEndFrom]
    split
    · simp
    · exact ih (i + 1)

/-- Where no line ends, the first line that ends with the bytes that follow holds all
there was, but for a carriage return. -/
theorem line_of_append {front more rest : Bytes} (hline : lineEndFrom 0 line = none)
    (h : line ++ more = front ++ 13 :: 10 :: rest) :
    line = front ++ [13] ∨ ∃ text, front = line ++ text := by
  rcases List.append_eq_append_iff.1 h with ⟨text, rfl, -⟩ | ⟨tail, rfl, htail⟩
  · exact .inr ⟨text, rfl⟩
  · match tail, htail with
    | [], _ => exact .inr ⟨[], by simp⟩
    | [b], htail =>
      obtain rfl : b = 13 := by
        simp at htail
        exact htail.1.symm
      exact .inl rfl
    | b :: b' :: tail, htail =>
      -- then the line would have ended before
      simp at htail
      obtain ⟨rfl, rfl, -⟩ := htail
      exact absurd hline (lineEndFrom_ne_none front tail 0)

theorem Unended.lineEndFrom_eq (h : Unended line) : lineEndFrom 0 line = none := by
  obtain ⟨text, n, hshape, hread⟩ := h.length
  refine lineEndFrom_of_initial (Bytes.ne_cr_of_toInt? hread) ?_ 0
  rcases hshape with rfl | rfl
  · exact List.prefix_append _ _
  · exact List.prefix_rfl

/-- **The line is refused** although it may go on. -/
theorem Unended.number_eq (h : Unended line) : number line = .malformed .invalidLength := by
  unfold number
  rw [h.lineEndFrom_eq]
  dsimp only
  rw [if_pos h.long]

/-- **The line ends** as the length that it is. -/
theorem Unended.number_append (h : Unended line) :
    ∃ (more : Bytes) (n : Nat), number (line ++ more) = .done (n : Int) [] := by
  obtain ⟨text, n, hshape, hread⟩ := h.length
  have hend : number (text ++ 13 :: 10 :: []) = .done (n : Int) [] := by
    unfold number
    rw [lineEndFrom_append (Bytes.ne_cr_of_toInt? hread), Nat.zero_add]
    dsimp only
    rw [List.take_left, hread]
    dsimp only
    rw [List.drop_of_length_le (by simp)]
  rcases hshape with rfl | rfl
  · exact ⟨[13, 10], n, hend⟩
  · exact ⟨[10], n, by rw [List.append_assoc]; exact hend⟩

/-! ## §3. Faults that are final. -/

variable {α β : Type}

/-- Every fault of a decoder is final, but for those of bytes that are judged early. -/
structure FinalBut (early : Bytes → Prop) (read : Bytes → Verdict α) : Prop where
  final : ∀ {bs error}, read bs = .malformed error → ¬ early bs →
    ∀ more, read (bs ++ more) = .malformed error

theorem FinalBut.mono {early early' : Bytes → Prop} {read : Bytes → Verdict α}
    (h : FinalBut early read) (himp : ∀ bs, early bs → early' bs) : FinalBut early' read := by
  refine ⟨?_⟩
  intro bs error hread hearly
  exact h.final hread fun hbs => hearly (himp bs hbs)

/-- A decoder without faults. -/
theorem finalBut_done (value : α) : FinalBut (fun _ => False) fun bs => .done value bs := by
  refine ⟨?_⟩
  intro bs error h
  cases h

theorem Local.whole {read : Bytes → Verdict α} (h : Local read) {front : Bytes} {value : α}
    (hread : read front = .done value []) (other : Bytes) :
    read (front ++ other) = .done value other := by
  obtain ⟨taken, htaken, hall⟩ := h.front hread
  rw [htaken, List.append_nil]
  exact hall other

/-- **Decoders in a row.**  A fault comes early in the first, or in the second behind
what the first has read. -/
theorem FinalBut.andThen {early : Bytes → Prop} {earlyNext : α → Bytes → Prop}
    {first : Bytes → Verdict α} {next : α → Bytes → Verdict β} (hfirst : FinalBut early first)
    (hlocal : Local first) (hnext : ∀ a, FinalBut (earlyNext a) (next a)) :
    FinalBut (fun bs => early bs ∨ ∃ front a back, bs = front ++ back ∧ first front = .done a []
        ∧ earlyNext a back)
      (fun bs => (first bs).andThen next) := by
  refine ⟨?_⟩
  intro bs error h hearly more
  cases hread : first bs with
  | incomplete =>
    rw [hread] at h
    cases h
  | malformed fault =>
    rw [hread] at h
    cases h
    show (first (bs ++ more)).andThen next = _
    rw [hfirst.final hread (fun hbs => hearly (.inl hbs)) more]
    rfl
  | done a rest =>
    obtain ⟨front, rfl, hfront⟩ := hlocal.front hread
    have hwhole : first front = .done a [] := by
      have hnil := hfront []
      rw [List.append_nil] at hnil
      exact hnil
    rw [hread] at h
    show (first (front ++ rest ++ more)).andThen next = _
    rw [List.append_assoc, hfront]
    refine (hnext a).final h ?_ more
    intro hrest
    exact hearly (.inr ⟨front, a, rest, rfl, hwhole, hrest⟩)

/-- What a number is read as where a length is expected. -/
def ofNumber (n : Int) (rest : Bytes) : Verdict Nat :=
  if n < 0 then .malformed .invalidLength else .done n.toNat rest

/-- A number on a line that ends is judged by that line. -/
theorem number_append_of_lineEnd {i : Nat} (hline : lineEndFrom 0 bs = some i) {error : FrameError}
    (h : (number bs).andThen ofNumber = .malformed error) (more : Bytes) :
    (number (bs ++ more)).andThen ofNumber = .malformed error := by
  obtain ⟨front, rest, rfl, hi, hfront⟩ := lineEndFrom_split hline
  obtain rfl : i = front.length := by omega
  have hshape : front ++ 13 :: 10 :: rest ++ more = front ++ 13 :: 10 :: (rest ++ more) :=
    List.append_assoc _ _ _
  rw [hshape]
  -- the line is the same with more behind it, so the number read from it is, too
  cases hread : Bytes.toInt? 64 front with
  | none =>
    have hnumber : ∀ other, number (front ++ 13 :: 10 :: other) = .malformed .invalidLength := by
      intro other
      unfold number
      rw [hfront]
      dsimp only
      rw [List.take_left, hread]
    rw [hnumber] at h ⊢
    exact h
  | some n =>
    have hnumber : ∀ other, ∃ after, number (front ++ 13 :: 10 :: other) = .done n after := by
      intro other
      refine ⟨(front ++ 13 :: 10 :: other).drop (front.length + 2), ?_⟩
      unfold number
      rw [hfront]
      dsimp only
      rw [List.take_left, hread]
    obtain ⟨after, hafter⟩ := hnumber rest
    obtain ⟨later, hlater⟩ := hnumber (rest ++ more)
    rw [hafter] at h
    rw [hlater]
    by_cases hneg : n < 0
    · simpa [Verdict.andThen, ofNumber, hneg] using h
    · simp [Verdict.andThen, ofNumber, hneg] at h

/-- A long line that does not end is no length, however it goes on, if it is not the
front of one. -/
theorem number_append_of_not_unended (hline : lineEndFrom 0 line = none)
    (hlong : maxHeader < line.length) (hunended : ¬ Unended line) (more : Bytes) :
    (number (line ++ more)).andThen ofNumber = .malformed .invalidLength := by
  unfold number
  cases hend : lineEndFrom 0 (line ++ more) with
  | none =>
    dsimp only
    rw [if_pos (by rw [List.length_append]; omega)]
    rfl
  | some i =>
    obtain ⟨front, rest, hshape, hi, -⟩ := lineEndFrom_split hend
    obtain rfl : i = front.length := by omega
    dsimp only
    rw [hshape, List.take_left]
    cases hread : Bytes.toInt? 64 front with
    | none => rfl
    | some n =>
      show ofNumber n _ = _
      by_cases hneg : n < 0
      · exact if_pos hneg
      · -- a length, so what is there of it is one
        refine absurd ⟨hlong, ?_⟩ hunended
        obtain ⟨k, rfl⟩ : ∃ k : Nat, n = (k : Int) := ⟨n.toNat, by omega⟩
        rcases line_of_append hline hshape with rfl | ⟨text, rfl⟩
        · exact ⟨front, k, .inr rfl, hread⟩
        · have hone : 1 < line.length := by
            have hmax : maxHeader = 20 := rfl
            omega
          obtain ⟨m, hm⟩ := Bytes.toInt?_of_append hone hread
          exact ⟨line, m, .inl rfl, hm⟩

/-- A length is judged early inside its line. -/
theorem finalBut_lengthAfter (marker : UInt8) :
    FinalBut (fun bs => ∃ line, bs = marker :: line ∧ Unended line) (lengthAfter marker) := by
  refine ⟨?_⟩
  intro bs error h hearly more
  cases bs with
  | nil => cases h
  | cons b bs =>
    rw [lengthAfter] at h
    rw [List.cons_append, lengthAfter]
    split at h
    · rename_i hmarker
      rw [if_pos hmarker]
      subst hmarker
      -- the line has ended, or it is longer than any header: both last
      cases hline : lineEndFrom 0 bs with
      | some i => exact number_append_of_lineEnd hline h more
      | none =>
        have hunended : ¬ Unended bs := fun hbs => hearly ⟨bs, rfl, hbs⟩
        unfold number at h
        rw [hline] at h
        dsimp only at h
        split at h
        · rename_i hlong
          cases h
          exact number_append_of_not_unended hline hlong hunended more
        · cases h
    · rename_i hmarker
      rw [if_neg hmarker]
      exact h

theorem finalBut_payload (length : Nat) : FinalBut (fun _ => False) (payload length) := by
  refine ⟨?_⟩
  intro bs error h _ more
  unfold payload at h ⊢
  dsimp only at h ⊢
  split at h
  · cases h
  · rename_i hbytes
    have hle : length ≤ bs.length := by
      rw [List.length_take] at hbytes
      omega
    rw [List.take_append_of_le_length hle, List.drop_append_of_le_length hle, if_neg hbytes]
    split at h
    · rename_i a b rest hdrop
      rw [hdrop]
      split at h
      · cases h
      · rename_i hend
        show (if a = 13 ∧ b = 10 then Verdict.done (bs.take length) (rest ++ more) else _) = _
        rw [if_neg hend]
        exact h
    · cases h

theorem finalBut_argument :
    FinalBut (fun bs => ∃ line, bs = bulkMarker :: line ∧ Unended line) argument := by
  refine ((finalBut_lengthAfter bulkMarker).andThen (local_lengthAfter bulkMarker)
    finalBut_payload).mono ?_
  rintro bs (hline | ⟨_, _, _, _, _, hfalse⟩)
  · exact hline
  · exact hfalse.elim

/-- Arguments are judged early inside the line of one of them. -/
theorem finalBut_arguments (n : Nat) :
    FinalBut (fun bs => ∃ (args : Command) (front line : Bytes), args.length < n
        ∧ arguments args.length front = .done args [] ∧ bs = front ++ bulkMarker :: line
        ∧ Unended line)
      (arguments n) := by
  induction n with
  | zero => exact (finalBut_done []).mono fun _ hfalse => hfalse.elim
  | succ n ih =>
    have hothers : ∀ arg : Bytes, FinalBut _ fun rest =>
        (arguments n rest).andThen fun args rest => .done (arg :: args) rest :=
      fun arg => ih.andThen (local_arguments n) fun args => finalBut_done (arg :: args)
    refine (finalBut_argument.andThen local_argument hothers).mono ?_
    rintro bs (⟨line, rfl, hline⟩ | ⟨first, arg, back, rfl, hfirst, hback⟩)
    · exact ⟨[], [], line, by simp, rfl, rfl, hline⟩
    · rcases hback with ⟨args, front, line, hlt, hfront, rfl, hline⟩ | ⟨_, _, _, _, _, hfalse⟩
      · refine ⟨arg :: args, first ++ front, line, by simpa using hlt, ?_, by simp, hline⟩
        show (argument (first ++ front)).andThen _ = _
        rw [local_argument.whole hfirst]
        show (arguments args.length front).andThen _ = _
        rw [hfront]
        rfl
      · exact hfalse.elim

/-! ## §4. Commands. -/

/-- Bytes that end inside a line that is refused too early: the line of a command's
header, or the line of one of its arguments. -/
inductive Hasty : Bytes → Prop where
  | count {line : Bytes} (hline : Unended line) : Hasty (arrayMarker :: line)
  | length {first front line : Bytes} {count : Nat} {args : Command}
      (hfirst : lengthAfter arrayMarker first = .done count [])
      (hfront : arguments args.length front = .done args [])
      (hcount : args.length < count) (hline : Unended line) :
      Hasty (first ++ (front ++ bulkMarker :: line))

/-- **A fault of a command is final, or the bytes are hasty.** -/
theorem finalBut_decode : FinalBut Hasty decode := by
  refine ((finalBut_lengthAfter arrayMarker).andThen (local_lengthAfter arrayMarker)
    finalBut_arguments).mono ?_
  rintro bs (⟨line, rfl, hline⟩
    | ⟨first, count, _, rfl, hfirst, args, front, line, hlt, hfront, rfl, hline⟩)
  · exact .count hline
  · exact .length hfirst hfront hlt hline

theorem arguments_add (m n : Nat) (bs : Bytes) :
    arguments (m + n) bs = (arguments m bs).andThen fun args rest =>
      (arguments n rest).andThen fun more rest => .done (args ++ more) rest := by
  induction m generalizing bs with
  | zero =>
    rw [Nat.zero_add]
    show arguments n bs = (arguments n bs).andThen fun more rest => .done more rest
    cases arguments n bs <;> rfl
  | succ m ih =>
    rw [Nat.succ_add, arguments, arguments]
    cases argument bs with
    | incomplete => rfl
    | malformed error => rfl
    | done arg rest =>
      show (arguments (m + n) rest).andThen _ = ((arguments m rest).andThen _).andThen _
      rw [ih]
      cases arguments m rest with
      | incomplete => rfl
      | malformed error => rfl
      | done args rest =>
        show ((arguments n rest).andThen _).andThen _ = (arguments n rest).andThen _
        cases arguments n rest <;> rfl

/-- Behind some of its arguments a command goes on with the next. -/
theorem exists_next {first front : Bytes} {count : Nat} {args : Command}
    (hfirst : lengthAfter arrayMarker first = .done count [])
    (hfront : arguments args.length front = .done args []) (hcount : args.length < count) :
    ∃ next, ∀ bs, decode (first ++ (front ++ bs)) = (argument bs).andThen next := by
  obtain ⟨n, rfl⟩ : ∃ n, count = args.length + (n + 1) := ⟨count - args.length - 1, by omega⟩
  refine ⟨fun arg rest => (arguments n rest).andThen fun more rest =>
    .done (args ++ arg :: more) rest, ?_⟩
  intro bs
  show (lengthAfter arrayMarker (first ++ (front ++ bs))).andThen arguments = _
  rw [(local_lengthAfter arrayMarker).whole hfirst]
  show arguments (args.length + (n + 1)) (front ++ bs) = _
  rw [arguments_add, (local_arguments args.length).whole hfront]
  show (arguments (n + 1) bs).andThen _ = _
  rw [arguments]
  cases argument bs with
  | incomplete => rfl
  | malformed error => rfl
  | done arg rest =>
    show ((arguments n rest).andThen _).andThen _ = (arguments n rest).andThen _
    cases arguments n rest <;> rfl

theorem Unended.lengthAfter_eq (h : Unended line) (marker : UInt8) :
    lengthAfter marker (marker :: line) = .malformed .invalidLength := by
  rw [lengthAfter, if_pos rfl, h.number_eq]
  rfl

theorem Unended.lengthAfter_append (h : Unended line) (marker : UInt8) :
    ∃ (more : Bytes) (n : Nat), lengthAfter marker (marker :: line ++ more) = .done n [] := by
  obtain ⟨more, n, hread⟩ := h.number_append
  refine ⟨more, n, ?_⟩
  rw [List.cons_append, lengthAfter, if_pos rfl, hread]
  show ofNumber n [] = _
  unfold ofNumber
  rw [if_neg (by omega), Int.toNat_natCast]

/-- **Hasty bytes are a fault.** -/
theorem Hasty.decode_eq (h : Hasty bs) : decode bs = .malformed .invalidLength := by
  cases h with
  | count hline =>
    unfold decode
    rw [hline.lengthAfter_eq]
    rfl
  | length hfirst hfront hcount hline =>
    obtain ⟨next, hnext⟩ := exists_next hfirst hfront hcount
    rw [hnext]
    unfold argument
    rw [hline.lengthAfter_eq]
    rfl

/-- **They are none any more when their line ends.** -/
theorem Hasty.resolves (h : Hasty bs) :
    ∃ more, ∀ error, decode (bs ++ more) ≠ .malformed error := by
  cases h with
  | count hline =>
    obtain ⟨more, n, hread⟩ := hline.lengthAfter_append arrayMarker
    refine ⟨more, ?_⟩
    intro error hfault
    unfold decode at hfault
    rw [hread] at hfault
    cases n with
    | zero => cases hfault
    | succ n => cases hfault
  | @length first front line count args hfirst hfront hcount hline =>
    obtain ⟨next, hnext⟩ := exists_next hfirst hfront hcount
    obtain ⟨more, n, hread⟩ := hline.lengthAfter_append bulkMarker
    refine ⟨more, ?_⟩
    intro error hfault
    -- the length is there, and nothing of the argument
    have hpayload : payload n [] = .incomplete := by
      unfold payload
      cases n <;> rfl
    have hargument : argument (bulkMarker :: line ++ more) = .incomplete := by
      unfold argument
      rw [hread]
      exact hpayload
    rw [List.append_assoc, List.append_assoc, hnext, hargument] at hfault
    cases hfault

/-- **A fault is final if and only if the bytes are not hasty.** -/
theorem fault_final_iff {error : FrameError} (h : decode bs = .malformed error) :
    (∀ more, ∃ fault, decode (bs ++ more) = .malformed fault) ↔ ¬ Hasty bs := by
  constructor
  · intro hfinal hhasty
    obtain ⟨more, hmore⟩ := hhasty.resolves
    obtain ⟨fault, hfault⟩ := hfinal more
    exact hmore fault hfault
  · intro hhasty more
    exact ⟨error, finalBut_decode.final h hhasty more⟩

end Wire

end DurableStore
