import IotKit.Lib.Memory

/-!
# Strings and formats of the HTTP client

`strstr` for a line end, and the four formats `utils_httpc.c` gives to `sscanf`.  A C
string is the list of its bytes before the terminator.  A conversion that fails
gives nothing; one whose number does not fit its object is left to the caller,
since the language gives it no meaning.
-/

namespace IotKit.Http

open CMemory

/-- The C string that a byte array holds. -/
def cString (bs : Bytes) : Bytes := bs.takeWhile (· ≠ 0)

/-- The bytes of a literal. -/
def ascii (cs : List Char) : Bytes := cs.map fun c => UInt8.ofNat c.toNat

/-- The end of a line. -/
def crlf : Bytes := ascii ['\r', '\n']

/-- `strstr(data, "\r\n") - data`. -/
def strstrCrlf : Bytes → Option Nat
  | [] => none
  | b :: rest => if b = 13 ∧ rest.head? = some 10 then some 0 else (strstrCrlf rest).map (· + 1)

/-! ## Conversions -/

/-- `isspace`. -/
def isSpace (b : UInt8) : Bool := b = 32 ∨ (9 ≤ b ∧ b ≤ 13)

/-- A space in a format: any run of white space, also none. -/
def skipSpace (bs : Bytes) : Bytes := bs.dropWhile isSpace

/-- The value of a digit in a base up to 16. -/
def digitValue (b : UInt8) : Option Nat :=
  if 48 ≤ b ∧ b ≤ 57 then some (b.toNat - 48)
  else if 97 ≤ b ∧ b ≤ 102 then some (b.toNat - 87)
  else if 65 ≤ b ∧ b ≤ 70 then some (b.toNat - 55)
  else none

/-- A digit of the base. -/
def isDigit (base : Nat) (b : UInt8) : Bool :=
  match digitValue b with
  | some v => v < base
  | none => false

/-- The number that digits denote. -/
def digits (base : Nat) (bs : Bytes) : Nat :=
  bs.foldl (fun acc b => acc * base + (digitValue b).getD 0) 0

/-- The sign of a number, if it has one. -/
def scanSign : Bytes → Bool × Bytes
  | 43 :: rest => (false, rest)
  | 45 :: rest => (true, rest)
  | bs => (false, bs)

/-- The digits in front, at least one. -/
def scanDigits (base : Nat) (bs : Bytes) : Option (Nat × Bytes) :=
  match bs.takeWhile (isDigit base) with
  | [] => none
  | ds => some (digits base ds, bs.dropWhile (isDigit base))

/-- `%d`. -/
def scanInt (bs : Bytes) : Option (Int × Bytes) :=
  let (negative, rest) := scanSign (skipSpace bs)
  (scanDigits 10 rest).map fun (n, rest) => (if negative then -(n : Int) else n, rest)

/-- `%x`. -/
def scanHex (bs : Bytes) : Option (Int × Bytes) :=
  let (negative, rest) := scanSign (skipSpace bs)
  let ds :=
    match rest with
    | 48 :: 120 :: rest => rest
    | 48 :: 88 :: rest => rest
    | rest => rest
  (scanDigits 16 ds).map fun (n, rest) => (if negative then -(n : Int) else n, rest)

/-- Bytes of a format that stand for themselves. -/
def literal : Bytes → Bytes → Option Bytes
  | [], bs => some bs
  | c :: cs, b :: bs => if b = c then literal cs bs else none
  | _ :: _, [] => none

/-- `%31[^...]`: up to 31 bytes that are not excluded, at least one. -/
def scanSet (excluded : UInt8 → Bool) (bs : Bytes) : Option (Bytes × Bytes) :=
  match (bs.take 31).takeWhile (fun b => !excluded b) with
  | [] => none
  | item => some (item, bs.drop item.length)

/-! ## Lines -/

/-- `sscanf(data, "HTTP/%*d.%*d %d %*[^\r\n]", &response_code)`. -/
def scanStatus (line : Bytes) : Option Int := do
  let rest ← literal (ascii ['H', 'T', 'T', 'P', '/']) line
  let (_, rest) ← scanInt rest
  let rest ← literal (ascii ['.']) rest
  let (_, rest) ← scanInt rest
  let (code, _) ← scanInt (skipSpace rest)
  some code

/-- `sscanf(data, "%31[^:]: %31[^\r\n]", key, value)`, where both are read. -/
def scanHeader (line : Bytes) : Option (Bytes × Bytes) := do
  let (key, rest) ← scanSet (fun b => b = 58) line
  let rest ← literal (ascii [':']) rest
  let (value, _) ← scanSet (fun b => b = 13 ∨ b = 10) (skipSpace rest)
  some (key, value)

example : scanStatus (ascii ['H', 'T', 'T', 'P', '/', '1', '.', '1', ' ', '2', '0', '6']) =
    some 206 := by decide

/-! ## The first line end -/

theorem strstrCrlf_cons (b : UInt8) (rest : Bytes) :
    strstrCrlf (b :: rest) =
      if b = 13 ∧ rest.head? = some 10 then some 0 else (strstrCrlf rest).map (· + 1) := rfl

/-- A line end lies inside the string. -/
theorem strstrCrlf_lt {bs : Bytes} {pos : Nat} (h : strstrCrlf bs = some pos) :
    pos + 2 ≤ bs.length := by
  induction bs generalizing pos with
  | nil => cases h
  | cons b rest ih =>
      rw [strstrCrlf_cons] at h
      split at h
      next hb =>
        cases h
        cases rest with
        | nil => cases hb.2
        | cons c rest => exact Nat.le_add_left 2 _
      next =>
        obtain ⟨p, hp, rfl⟩ := Option.map_eq_some_iff.mp h
        have := ih hp
        rw [List.length_cons]
        omega

/-- The line end behind a line that has none is the first one. -/
theorem strstrCrlf_append_crlf {line : Bytes} (h : strstrCrlf line = none) (rest : Bytes) :
    strstrCrlf (line ++ crlf ++ rest) = some line.length := by
  induction line with
  | nil => rfl
  | cons b line ih =>
      rw [strstrCrlf_cons] at h
      split at h
      · cases h
      next hb =>
        have hhead : ¬ (b = 13 ∧ (line ++ crlf ++ rest).head? = some 10) := by
          cases line with
          | nil =>
              rintro ⟨_, hten⟩
              have : (13 : UInt8) = 10 := Option.some.inj hten
              exact absurd this (by decide)
          | cons c line => exact hb
        rw [List.cons_append, List.cons_append, strstrCrlf_cons, if_neg hhead,
          ih (Option.map_eq_none_iff.mp h)]
        rfl

/-- A string that starts a string without a line end has none either. -/
theorem strstrCrlf_prefix {bs whole : Bytes} (hpre : bs <+: whole)
    (h : strstrCrlf whole = none) : strstrCrlf bs = none := by
  induction bs generalizing whole with
  | nil => rfl
  | cons b bs ih =>
      obtain ⟨rest, rfl⟩ := hpre
      rw [List.cons_append, strstrCrlf_cons] at h
      split at h
      · cases h
      next hb =>
        have hhead : ¬ (b = 13 ∧ bs.head? = some 10) := by
          rintro ⟨hcr, hlf⟩
          cases bs with
          | nil => cases hlf
          | cons c bs => exact hb ⟨hcr, hlf⟩
        rw [strstrCrlf_cons, if_neg hhead, ih (List.prefix_append bs rest)
          (Option.map_eq_none_iff.mp h)]
        rfl

/-- A lone carriage return behind a line does not end it. -/
theorem strstrCrlf_append_cr {line : Bytes} (h : strstrCrlf line = none) :
    strstrCrlf (line ++ [13]) = none := by
  induction line with
  | nil => rfl
  | cons b line ih =>
      rw [strstrCrlf_cons] at h
      split at h
      · cases h
      next hb =>
        have hhead : ¬ (b = 13 ∧ (line ++ [13]).head? = some 10) := by
          cases line with
          | nil => rintro ⟨_, hten⟩; exact absurd hten (by decide)
          | cons c line => exact hb
        rw [List.cons_append, strstrCrlf_cons, if_neg hhead, ih (Option.map_eq_none_iff.mp h)]
        rfl

theorem cString_append {line : Bytes} (h : 0 ∉ line) (rest : Bytes) :
    cString (line ++ rest) = line ++ cString rest := by
  refine List.takeWhile_append_of_pos fun b hb => ?_
  rw [decide_eq_true_eq]
  rintro rfl
  exact h hb

/-! ## A buffer that begins with a line

The bytes `bs` are the beginning of a line, its end and more. -/

section
variable {line bs rest after : Bytes}

/-- A line that is there to its end. -/
theorem line_split (hbs : bs ++ rest = line ++ crlf ++ after) (hlen : line.length + 2 ≤ bs.length) :
    bs = line ++ crlf ++ bs.drop (line.length + 2) ∧ bs.drop (line.length + 2) ++ rest = after := by
  have hdrop : (line ++ crlf).length = line.length + 2 := List.length_append
  have hpre : line ++ crlf <+: bs :=
    List.prefix_of_prefix_length_le ⟨after, hbs.symm⟩ ⟨rest, rfl⟩ (hdrop ▸ hlen)
  obtain ⟨more, rfl⟩ := hpre
  rw [← hdrop, List.drop_left]
  rw [List.append_assoc] at hbs
  exact ⟨rfl, List.append_cancel_left hbs⟩

/-- A line that is not there to its end ends with its first character at most. -/
theorem line_cut (hbs : bs ++ rest = line ++ crlf ++ after) (hlen : bs.length < line.length + 2) :
    bs <+: line ++ [13] := by
  have hwhole : line ++ [13] ++ (10 :: after) = line ++ crlf ++ after := by
    rw [List.append_assoc, List.append_assoc]
    rfl
  refine List.prefix_of_prefix_length_le ⟨rest, hbs⟩ ⟨10 :: after, hwhole⟩ ?_
  rw [List.length_append]
  exact Nat.lt_succ_iff.mp hlen

/-- Then what is behind the line has yet to come, and more. -/
theorem after_lt_of_cut (hbs : bs ++ rest = line ++ crlf ++ after)
    (hlen : bs.length < line.length + 2) : after.length < rest.length := by
  have hlength := congrArg List.length hbs
  have hcrlf : crlf.length = 2 := rfl
  simp only [List.length_append] at hlength
  omega

/-- A whole line is found. -/
theorem strstrCrlf_line (hline : strstrCrlf line = none) (hzero : 0 ∉ line)
    (hbs : bs ++ rest = line ++ crlf ++ after) (hlen : line.length + 2 ≤ bs.length) :
    strstrCrlf (cString bs) = some line.length ∧ bs.take line.length = line ∧
      bs.drop (line.length + 2) ++ rest = after := by
  obtain ⟨hsplit, hrest⟩ := line_split hbs hlen
  have hcrlf : 0 ∉ line ++ crlf := by
    rw [List.mem_append, not_or]
    exact ⟨hzero, by decide⟩
  refine ⟨?_, ?_, hrest⟩
  · rw [hsplit, cString_append hcrlf]
    exact strstrCrlf_append_crlf hline _
  · rw [hsplit, List.append_assoc, List.take_left]

/-- A line that is not there to its end is not found. -/
theorem strstrCrlf_cut (hline : strstrCrlf line = none)
    (hbs : bs ++ rest = line ++ crlf ++ after) (hlen : bs.length < line.length + 2) :
    strstrCrlf (cString bs) = none :=
  strstrCrlf_prefix ((List.takeWhile_prefix _).trans (line_cut hbs hlen))
    (strstrCrlf_append_cr hline)

end

theorem cString_length_le (bs : Bytes) : (cString bs).length ≤ bs.length :=
  (List.takeWhile_prefix _).length_le

end IotKit.Http
