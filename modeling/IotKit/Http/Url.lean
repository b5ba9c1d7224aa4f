import IotKit.Http.Scan

/-!
# Taking a URL apart

`httpclient_parse_url` and `httpclient_parse_host`.  A pointer into the URL is its offset, and
a length is the difference of two of them, taken before it is known which comes first and
kept in a `uint32_t`.  The buffers of the caller have as many bytes as the limits say, and a
copy that leaves one, or the URL, has no meaning; neither has a difference from the null
pointer.
-/

namespace IotKit.Http.Url

open CMemory

/-- `ERROR_HTTP_PARSE`. -/
def errorHttpParse : Int := -7

/-- Why a call has no further meaning. -/
inductive Undefined where
  /-- It leaves an object. -/
  | fault (f : Fault)
  /-- It subtracts a pointer from the null pointer. -/
  | nullDifference
deriving DecidableEq, Repr

/-! ## Searching -/

/-- `strstr(bs, needle) - bs`. -/
def strstr (needle : Bytes) : Bytes → Option Nat
  | [] => if needle = [] then some 0 else none
  | b :: rest =>
      if needle.isPrefixOf (b :: rest) then some 0 else (strstr needle rest).map (· + 1)

/-- `strchr(bs, c) - bs`, for a character other than the terminator. -/
def strchr (c : UInt8) : Bytes → Option Nat
  | [] => none
  | b :: rest => if b = c then some 0 else (strchr c rest).map (· + 1)

/-- `"://"`. -/
def separator : Bytes := ascii [':', '/', '/']

/-- `'/'`. -/
def slash : UInt8 := 47

/-- `'#'`. -/
def hash : UInt8 := 35

/-! ## Copying a part -/

/-- A part of the URL that was copied. -/
structure Part where
  /-- The difference of the two pointers. -/
  len : Int
  /-- What was written before the terminator. -/
  bytes : Bytes
deriving DecidableEq, Repr

/-- `memcpy(dst, url + off, len); dst[len] = '\0'` for a buffer of `size` bytes. -/
def copyString (url : Bytes) (off len size : Nat) : Except Undefined Bytes :=
  match loadN (url ++ [0]) off len with
  | .error f => .error (.fault f)
  | .ok bs => if len + 1 ≤ size then .ok bs else .error (.fault .store)

/-- The host and the path: the length goes into a `uint32_t`, is compared with the limit, and
so many bytes are copied. -/
def copyPart (url : Bytes) (off : Nat) (len : Int) (limit : UInt32) :
    Except Undefined (Option Part) :=
  if limit < UInt32.ofInt len + 1 then .ok none
  else
    match copyString url off (UInt32.ofInt len).toNat limit.toNat with
    | .error e => .error e
    | .ok bs => .ok (some ⟨len, bs⟩)

/-! ## The two parsers -/

/-- What a call returns and has written. -/
structure Parsed where
  ret : Int
  scheme : Option Part
  host : Option Part
  port : Option Int
  path : Option Part
deriving DecidableEq, Repr

/-- A call that has written nothing. -/
def Parsed.failed : Parsed := ⟨errorHttpParse, none, none, none, none⟩

/-- `httpclient_parse_url` from the path on, where the offset of the first `/` is found. -/
def parsePath (url : Bytes) (hostPtr pathPtr : Nat) (maxPathLen : UInt32) (p : Parsed) :
    Except Undefined Parsed :=
  let pathLen : Int :=
    match strchr hash (url.drop hostPtr) with
    | some fragmentPtr => ((hostPtr + fragmentPtr : Nat) : Int) - pathPtr
    | none => (url.drop pathPtr).length
  match copyPart url pathPtr pathLen maxPathLen with
  | .error e => .error e
  | .ok none => .ok { p with ret := errorHttpParse }
  | .ok (some path) => .ok { p with ret := 0, path := some path }

/-- `httpclient_parse_url`. -/
def httpclientParseUrl (url : Bytes) (maxSchemeLen maxhostLen maxPathLen : UInt32) :
    Except Undefined Parsed :=
  match strstr separator url with
  | none => .ok .failed
  | some schemeLen =>
      -- compared as a `ptrdiff_t`
      if maxSchemeLen.toNat < schemeLen + 1 then .ok .failed
      else
        match copyString url 0 schemeLen maxSchemeLen.toNat with
        | .error e => .error e
        | .ok scheme =>
            let p : Parsed := ⟨-1, some ⟨schemeLen, scheme⟩, none, some 0, none⟩
            let hostPtr := schemeLen + 3
            match strchr slash (url.drop hostPtr) with
            | none => .ok p
            | some hostLen =>
                match copyPart url hostPtr hostLen maxhostLen with
                | .error e => .error e
                | .ok none => .ok { p with ret := errorHttpParse }
                | .ok (some host) =>
                    parsePath url hostPtr (hostPtr + hostLen) maxPathLen
                      { p with host := some host }

/-- `httpclient_parse_host`, which does not check that there is a `/`. -/
def httpclientParseHost (url : Bytes) (maxhostLen : UInt32) : Except Undefined Parsed :=
  match strstr separator url with
  | none => .ok .failed
  | some schemeLen =>
      let hostPtr := schemeLen + 3
      match strchr slash (url.drop hostPtr) with
      | none => .error .nullDifference
      | some hostLen =>
          match copyPart url hostPtr hostLen maxhostLen with
          | .error e => .error e
          | .ok none => .ok .failed
          | .ok (some host) => .ok ⟨0, none, some host, none, none⟩

/-! ## What a search finds -/

theorem strstr_eq_some {needle bs : Bytes} {i : Nat} (h : strstr needle bs = some i) :
    ∃ before behind, bs = before ++ needle ++ behind ∧ before.length = i := by
  induction bs generalizing i with
  | nil =>
      rw [strstr] at h
      split at h
      next hnil =>
        cases h
        exact ⟨[], [], by rw [hnil]; rfl, rfl⟩
      next => cases h
  | cons b rest ih =>
      rw [strstr] at h
      split at h
      next hfound =>
        cases h
        obtain ⟨behind, hbehind⟩ := List.isPrefixOf_iff_prefix.mp hfound
        exact ⟨[], behind, hbehind.symm, rfl⟩
      next =>
        obtain ⟨j, hj, rfl⟩ := Option.map_eq_some_iff.mp h
        obtain ⟨before, behind, hrest, hlen⟩ := ih hj
        exact ⟨b :: before, behind, by rw [hrest]; rfl, by rw [List.length_cons, hlen]⟩

theorem strchr_eq_some {c : UInt8} {bs : Bytes} {i : Nat} (h : strchr c bs = some i) :
    ∃ before behind, bs = before ++ c :: behind ∧ before.length = i ∧ c ∉ before := by
  induction bs generalizing i with
  | nil => cases h
  | cons b rest ih =>
      rw [strchr] at h
      split at h
      next hfound =>
        cases h
        exact ⟨[], rest, by rw [hfound]; rfl, rfl, List.not_mem_nil⟩
      next hother =>
        obtain ⟨j, hj, rfl⟩ := Option.map_eq_some_iff.mp h
        obtain ⟨before, behind, hrest, hlen, hnot⟩ := ih hj
        refine ⟨b :: before, behind, by rw [hrest]; rfl, by rw [List.length_cons, hlen], ?_⟩
        rw [List.mem_cons]
        rintro (rfl | hmem)
        · exact hother rfl
        · exact hnot hmem

/-- The three parts that the two searches find. -/
theorem located {url : Bytes} {s h : Nat} (hs : strstr separator url = some s)
    (hh : strchr slash (url.drop (s + 3)) = some h) :
    ∃ scheme host tail, url = scheme ++ separator ++ (host ++ slash :: tail) ∧
      scheme.length = s ∧ host.length = h ∧ slash ∉ host := by
  obtain ⟨scheme, behind, rfl, rfl⟩ := strstr_eq_some hs
  have hdrop : (scheme ++ separator ++ behind).drop (scheme.length + 3) = behind := by
    rw [List.drop_append_of_le_length (by simp [separator, ascii])]
    simp [separator, ascii]
  rw [hdrop] at hh
  obtain ⟨host, tail, rfl, hlen, hnot⟩ := strchr_eq_some hh
  exact ⟨scheme, host, tail, rfl, rfl, hlen, hnot⟩

/-! ## Lengths in 32 bits -/

/-- The length is none that a `uint32_t` holds with the terminator, and what the `uint32_t`
makes of it is within the limit. -/
def Wraps (len : Int) (limit : UInt32) : Prop :=
  ¬(0 ≤ len ∧ len + 1 < 2 ^ 32) ∧ UInt32.ofInt len + 1 ≤ limit

instance (len : Int) (limit : UInt32) : Decidable (Wraps len limit) :=
  inferInstanceAs (Decidable (_ ∧ _))

/-- The length is within the limit, with the terminator. -/
def Within (len : Int) (limit : UInt32) : Prop := 0 ≤ len ∧ len + 1 ≤ limit.toNat

theorem ofInt_toNat {len : Int} (h : 0 ≤ len ∧ len + 1 < 2 ^ 32) :
    ((UInt32.ofInt len).toNat : Int) = len ∧ ((UInt32.ofInt len + 1).toNat : Int) = len + 1 := by
  have hlen : (UInt32.ofInt len).toNat = len.toNat := by
    rw [UInt32.ofInt, UInt32.toNat_ofNat']
    omega
  refine ⟨by omega, ?_⟩
  rw [UInt32.toNat_add, hlen, UInt32.toNat_one]
  omega

theorem Within.lt {len : Int} {limit : UInt32} (h : Within len limit) :
    0 ≤ len ∧ len + 1 < 2 ^ 32 := by
  have hlimit := limit.toNat_lt
  obtain ⟨hnonneg, hle⟩ := h
  omega

theorem Wraps.not_within {len : Int} {limit : UInt32} (h : Wraps len limit) :
    ¬Within len limit := fun hwithin => h.1 hwithin.lt

section Copy

variable {url : Bytes} {off : Nat} {len : Int} {limit : UInt32}

theorem copyString_eq {n size : Nat} (hurl : off + n ≤ url.length) (hsize : n + 1 ≤ size) :
    copyString url off n size = .ok ((url.drop off).take n) := by
  have hload : loadN (url ++ [0]) off n = .ok ((url.drop off).take n) := by
    rw [loadN_of_le (by rw [List.length_append]; omega),
      List.drop_append_of_le_length (by omega),
      List.take_append_of_le_length (by rw [List.length_drop]; omega)]
  simp only [copyString, hload, if_pos hsize]

/-- A length within the limit is copied. -/
theorem copyPart_within (hwithin : Within len limit) (hurl : off + len.toNat ≤ url.length) :
    copyPart url off len limit = .ok (some ⟨len, (url.drop off).take len.toNat⟩) := by
  obtain ⟨hlen, hnext⟩ := ofInt_toNat hwithin.lt
  have hle := hwithin.2
  have hpass : ¬limit < UInt32.ofInt len + 1 := by
    rw [UInt32.lt_iff_toNat_lt]
    omega
  have htoNat : (UInt32.ofInt len).toNat = len.toNat := by omega
  rw [copyPart, if_neg hpass, htoNat, copyString_eq hurl (by omega)]

/-- A length beyond the limit is refused, unless it wraps. -/
theorem copyPart_beyond (hbeyond : ¬Within len limit) (hwraps : ¬Wraps len limit) :
    copyPart url off len limit = .ok none := by
  have hrefused : limit < UInt32.ofInt len + 1 := by
    by_contra hpass
    rw [UInt32.not_lt] at hpass
    by_cases hrange : 0 ≤ len ∧ len + 1 < 2 ^ 32
    · obtain ⟨_, hnext⟩ := ofInt_toNat hrange
      rw [UInt32.le_iff_toNat_le] at hpass
      exact hbeyond ⟨hrange.1, by omega⟩
    · exact hwraps ⟨hrange, hpass⟩
  rw [copyPart, if_pos hrefused]

/-- A length that wraps is copied, if the copy has a meaning. -/
theorem copyPart_wraps (hwraps : Wraps len limit) {r : Option Part}
    (h : copyPart url off len limit = .ok r) : ∃ part, r = some part ∧ part.len = len := by
  rw [copyPart, if_neg (UInt32.not_lt.mpr hwraps.2)] at h
  split at h
  next => cases h
  next bs _ =>
    cases h
    exact ⟨⟨len, bs⟩, rfl, rfl⟩

end Copy

/-! ## What a call returns -/

/-- The pointer difference that is the length of the path, where `rest` is what follows the
separator and its first `/` is at `hostLen`: up to the first `#` or the end. -/
def pathLength (rest : Bytes) (hostLen : Nat) : Int :=
  (((strchr hash rest).getD rest.length : Nat) : Int) - hostLen

section Calls

variable {url : Bytes} {maxSchemeLen maxhostLen maxPathLen : UInt32} {s h : Nat}

theorem parsePath_eq (hh : h ≤ (url.drop s).length) (p : Parsed) :
    parsePath url s (s + h) maxPathLen p =
      match copyPart url (s + h) (pathLength (url.drop s) h) maxPathLen with
      | .error e => .error e
      | .ok none => .ok { p with ret := errorHttpParse }
      | .ok (some path) => .ok { p with ret := 0, path := some path } := by
  have hlen : (match strchr hash (url.drop s) with
      | some fragmentPtr => ((s + fragmentPtr : Nat) : Int) - (s + h : Nat)
      | none => ((url.drop (s + h)).length : Int)) = pathLength (url.drop s) h := by
    rw [pathLength]
    cases strchr hash (url.drop s) with
    | none =>
        simp only [Option.getD_none, List.length_drop] at hh ⊢
        omega
    | some f =>
        simp only [Option.getD_some]
        omega
  rw [parsePath, hlen]

/-- With a `/` after the separator, `httpclient_parse_host` is the copy of the host. -/
theorem parseHost_eq (hs : strstr separator url = some s)
    (hh : strchr slash (url.drop (s + 3)) = some h) :
    httpclientParseHost url maxhostLen =
      match copyPart url (s + 3) h maxhostLen with
      | .error e => .error e
      | .ok none => .ok .failed
      | .ok (some host) => .ok ⟨0, none, some host, none, none⟩ := by
  simp only [httpclientParseHost, hs, hh]

/-- With a `/` after the separator and a scheme that fits, `httpclient_parse_url` copies the
host and then the path. -/
theorem parseUrl_eq (hs : strstr separator url = some s)
    (hh : strchr slash (url.drop (s + 3)) = some h) (hfits : s + 1 ≤ maxSchemeLen.toNat) :
    httpclientParseUrl url maxSchemeLen maxhostLen maxPathLen =
      match copyPart url (s + 3) h maxhostLen with
      | .error e => .error e
      | .ok none =>
          .ok ⟨errorHttpParse, some ⟨s, url.take s⟩, none, some 0, none⟩
      | .ok (some host) =>
          parsePath url (s + 3) (s + 3 + h) maxPathLen
            ⟨-1, some ⟨s, url.take s⟩, some host, some 0, none⟩ := by
  obtain ⟨scheme, host, tail, rfl, rfl, rfl, -⟩ := located hs hh
  have hcopy : copyString (scheme ++ separator ++ (host ++ slash :: tail)) 0 scheme.length
      maxSchemeLen.toNat = .ok ((scheme ++ separator ++ (host ++ slash :: tail)).take
        scheme.length) :=
    copyString_eq (by simp) hfits
  simp only [httpclientParseUrl, hs, hh, if_neg (Nat.not_lt.mpr hfits), hcopy]

/-- A scheme that does not fit is refused before anything is written. -/
theorem parseUrl_scheme (hs : strstr separator url = some s)
    (hlong : ¬s + 1 ≤ maxSchemeLen.toNat) :
    httpclientParseUrl url maxSchemeLen maxhostLen maxPathLen = .ok .failed := by
  simp only [httpclientParseUrl, hs, if_pos (Nat.not_le.mp hlong)]

end Calls

/-! ## Safe and consistent splitting -/

/-- The URL is the scheme, the separator, the host up to the first `/`, the path and what
follows it. -/
def Splits (url scheme host path : Bytes) : Prop :=
  ∃ rest, url = scheme ++ separator ++ host ++ path ++ rest ∧ slash ∉ host ∧
    path.head? = some slash ∧ (rest = [] ∨ rest.head? = some hash)

/-- `httpclient_parse_url` fails, or splits the URL into parts within the limits. -/
def UrlParsed (url : Bytes) (maxSchemeLen maxhostLen maxPathLen : UInt32) (p : Parsed) : Prop :=
  p.ret = 0 → ∃ scheme host path,
    p.scheme = some scheme ∧ p.host = some host ∧ p.path = some path ∧
      Within scheme.len maxSchemeLen ∧ Within host.len maxhostLen ∧ Within path.len maxPathLen ∧
      Splits url scheme.bytes host.bytes path.bytes

/-- `httpclient_parse_host` fails, or finds the host between the separator and the path, within
the limit. -/
def HostParsed (url : Bytes) (maxhostLen : UInt32) (p : Parsed) : Prop :=
  p.ret = 0 → ∃ host,
    p.host = some host ∧ Within host.len maxhostLen ∧
      ∃ scheme path, Splits url scheme host.bytes path

/-- Both calls have a meaning and do so; and if the first comes as far as the host, it takes or
refuses the same host as the second. -/
def SplitsSafely (url : Bytes) (maxSchemeLen maxhostLen maxPathLen : UInt32) : Prop :=
  ∃ p q, httpclientParseUrl url maxSchemeLen maxhostLen maxPathLen = .ok p ∧
    httpclientParseHost url maxhostLen = .ok q ∧
    UrlParsed url maxSchemeLen maxhostLen maxPathLen p ∧ HostParsed url maxhostLen q ∧
    (p.scheme.isSome → p.host = q.host) ∧ (q.host.isSome ↔ q.ret = 0)

/-- There is no separator, or a `/` comes after it, the length of the host does not wrap, and
neither does that of the path if scheme and host are within their limits. -/
def Regular (url : Bytes) (maxSchemeLen maxhostLen maxPathLen : UInt32) : Prop :=
  match strstr separator url with
  | none => True
  | some s =>
      match strchr slash (url.drop (s + 3)) with
      | none => False
      | some h =>
          ¬Wraps h maxhostLen ∧
            (Within s maxSchemeLen → Within h maxhostLen →
              ¬Wraps (pathLength (url.drop (s + 3)) h) maxPathLen)

/-- From the first `/` on, a length that is not negative cuts off what starts with `#`. -/
theorem path_cut {host tail : Bytes}
    (hlen : 0 ≤ pathLength (host ++ slash :: tail) host.length) :
    ∃ path rest, slash :: tail = path ++ rest ∧
      pathLength (host ++ slash :: tail) host.length = path.length ∧
      path.head? = some slash ∧ (rest = [] ∨ rest.head? = some hash) := by
  rw [pathLength] at hlen ⊢
  cases hfound : strchr hash (host ++ slash :: tail) with
  | none =>
      refine ⟨slash :: tail, [], (List.append_nil _).symm, ?_, rfl, .inl rfl⟩
      rw [Option.getD_none, List.length_append]
      omega
  | some f =>
      obtain ⟨before, behind, heq, rfl, -⟩ := strchr_eq_some hfound
      rw [hfound, Option.getD_some] at hlen
      obtain ⟨path, rfl, hpath⟩ | ⟨_, rfl, _⟩ := List.append_eq_append_iff.mp heq
      · refine ⟨path, hash :: behind, hpath, ?_, ?_, .inr rfl⟩
        · rw [Option.getD_some, List.length_append]
          omega
        · cases path with
          | nil => exact absurd (List.cons.inj hpath).1 (by decide)
          | cons b path => exact congrArg some (List.cons.inj hpath).1.symm
      next excess hexcess =>
        cases excess with
        | nil => exact absurd (List.cons.inj hexcess).1 (by decide)
        | cons b excess =>
            rw [List.length_append, List.length_cons] at hlen
            omega

/-- The parts of a URL as the offsets of the two searches give them. -/
theorem located_drop {scheme host tail : Bytes} :
    let url := scheme ++ separator ++ (host ++ slash :: tail)
    url.take scheme.length = scheme ∧ url.drop (scheme.length + 3) = host ++ slash :: tail ∧
      url.drop (scheme.length + 3 + host.length) = slash :: tail := by
  intro url
  have hlen : (scheme ++ separator).length = scheme.length + 3 := List.length_append
  have hdrop : url.drop (scheme.length + 3) = host ++ slash :: tail := by
    rw [← hlen, List.drop_left]
  refine ⟨?_, hdrop, ?_⟩
  · rw [show url = scheme ++ (separator ++ (host ++ slash :: tail)) from List.append_assoc _ _ _,
      List.take_left]
  · rw [← List.drop_drop, hdrop, List.drop_left]

section Iff

variable {url : Bytes} {maxSchemeLen maxhostLen maxPathLen : UInt32} {s h : Nat}

/-- A host whose length wraps is not found within the limit. -/
theorem host_not_wraps (hs : strstr separator url = some s)
    (hh : strchr slash (url.drop (s + 3)) = some h) {q : Parsed}
    (hq : httpclientParseHost url maxhostLen = .ok q) (hparsed : HostParsed url maxhostLen q) :
    ¬Wraps h maxhostLen := by
  intro hwraps
  rw [parseHost_eq hs hh] at hq
  cases hcopy : copyPart url (s + 3) h maxhostLen with
  | error e =>
      rw [hcopy] at hq
      cases hq
  | ok r =>
      obtain ⟨part, rfl, hlen⟩ := copyPart_wraps hwraps hcopy
      rw [hcopy] at hq
      cases hq
      obtain ⟨host, hhost, hwithin, -⟩ := hparsed rfl
      cases hhost
      exact hwraps.not_within (hlen ▸ hwithin)

/-- Nor is a path, after a scheme and a host that are within theirs. -/
theorem path_not_wraps (hs : strstr separator url = some s)
    (hh : strchr slash (url.drop (s + 3)) = some h) (hscheme : Within s maxSchemeLen)
    (hhost : Within h maxhostLen) {p : Parsed}
    (hp : httpclientParseUrl url maxSchemeLen maxhostLen maxPathLen = .ok p)
    (hparsed : UrlParsed url maxSchemeLen maxhostLen maxPathLen p) :
    ¬Wraps (pathLength (url.drop (s + 3)) h) maxPathLen := by
  intro hwraps
  have hfits : s + 1 ≤ maxSchemeLen.toNat := by
    have hle := hscheme.2
    omega
  have hin : s + 3 + h ≤ url.length := by
    obtain ⟨scheme, host, tail, rfl, rfl, rfl, -⟩ := located hs hh
    simp only [List.length_append, separator, ascii, List.length_map, List.length_cons,
      List.length_nil]
    omega
  rw [parseUrl_eq hs hh hfits, copyPart_within hhost (by omega)] at hp
  simp only [] at hp
  rw [parsePath_eq (by rw [List.length_drop]; omega)] at hp
  cases hcopy : copyPart url (s + 3 + h) (pathLength (url.drop (s + 3)) h) maxPathLen with
  | error e =>
      rw [hcopy] at hp
      cases hp
  | ok r =>
      obtain ⟨part, rfl, hlen⟩ := copyPart_wraps hwraps hcopy
      rw [hcopy] at hp
      cases hp
      obtain ⟨_, _, path, _, _, hpath, _, _, hwithin, _⟩ := hparsed rfl
      cases hpath
      exact hwraps.not_within (hlen ▸ hwithin)

/-- The host, where it is within its limit. -/
theorem hostParsed_of_within {scheme host tail : Bytes} (hslash : slash ∉ host)
    (hwithin : Within host.length maxhostLen) :
    HostParsed (scheme ++ separator ++ (host ++ slash :: tail)) maxhostLen
      ⟨0, none, some ⟨host.length, host⟩, none, none⟩ := by
  intro _
  refine ⟨⟨host.length, host⟩, rfl, hwithin, scheme, slash :: tail, [], ?_, hslash, rfl, .inl rfl⟩
  simp only [List.append_assoc, List.append_nil]

/-- The path of a URL whose scheme and host are within their limits. -/
theorem parsePath_regular {scheme host tail : Bytes} (hslash : slash ∉ host)
    (hscheme : Within scheme.length maxSchemeLen) (hhost : Within host.length maxhostLen)
    (hpath : ¬Wraps (pathLength (host ++ slash :: tail) host.length) maxPathLen) :
    ∃ p, parsePath (scheme ++ separator ++ (host ++ slash :: tail)) (scheme.length + 3)
        (scheme.length + 3 + host.length) maxPathLen
        ⟨-1, some ⟨scheme.length, scheme⟩, some ⟨host.length, host⟩, some 0, none⟩ = .ok p ∧
      p.host = some ⟨host.length, host⟩ ∧
      UrlParsed (scheme ++ separator ++ (host ++ slash :: tail)) maxSchemeLen maxhostLen
        maxPathLen p := by
  obtain ⟨-, hdrop, hdropPath⟩ := @located_drop scheme host tail
  rw [parsePath_eq (by rw [hdrop, List.length_append]; omega), hdrop]
  by_cases hwithin : Within (pathLength (host ++ slash :: tail) host.length) maxPathLen
  · obtain ⟨path, rest, hcut, hlen, hhead, hrest⟩ := path_cut hwithin.1
    have hbytes : ((scheme ++ separator ++ (host ++ slash :: tail)).drop
        (scheme.length + 3 + host.length)).take path.length = path := by
      rw [hdropPath, hcut, List.take_left]
    have hin : scheme.length + 3 + host.length + path.length ≤
        (scheme ++ separator ++ (host ++ slash :: tail)).length := by
      rw [hcut]
      simp only [List.length_append, separator, ascii, List.length_map, List.length_cons,
        List.length_nil]
      omega
    rw [hlen] at hwithin ⊢
    rw [copyPart_within hwithin (by rwa [Int.toNat_natCast]), Int.toNat_natCast, hbytes]
    refine ⟨_, rfl, rfl, fun _ => ⟨_, _, _, rfl, rfl, rfl, hscheme, hhost, hwithin, rest, ?_,
      hslash, hhead, hrest⟩⟩
    simp only [hcut, List.append_assoc]
  · rw [copyPart_beyond hwithin hpath]
    exact ⟨_, rfl, rfl, nofun⟩

/-- A regular URL with a separator is split safely. -/
theorem splitsSafely_of_regular (hs : strstr separator url = some s)
    (hh : strchr slash (url.drop (s + 3)) = some h) (hhost : ¬Wraps h maxhostLen)
    (hpath : Within s maxSchemeLen → Within h maxhostLen →
      ¬Wraps (pathLength (url.drop (s + 3)) h) maxPathLen) :
    SplitsSafely url maxSchemeLen maxhostLen maxPathLen := by
  have hq := @parseHost_eq _ maxhostLen _ _ hs hh
  have hp := @parseUrl_eq _ maxSchemeLen maxhostLen maxPathLen _ _ hs hh
  have hlong := @parseUrl_scheme _ maxSchemeLen maxhostLen maxPathLen _ hs
  obtain ⟨scheme, host, tail, rfl, rfl, rfl, hslash⟩ := located hs hh
  obtain ⟨htake, hdrop, -⟩ := @located_drop scheme host tail
  rw [hdrop] at hpath
  rw [htake] at hp
  by_cases hwithin : Within host.length maxhostLen
  · have hbytes : ((scheme ++ separator ++ (host ++ slash :: tail)).drop
        (scheme.length + 3)).take (host.length : Int).toNat = host := by
      rw [hdrop, Int.toNat_natCast, List.take_left]
    have hin : scheme.length + 3 + (host.length : Int).toNat ≤
        (scheme ++ separator ++ (host ++ slash :: tail)).length := by
      simp only [List.length_append, separator, ascii, List.length_map, List.length_cons,
        List.length_nil]
      omega
    have hcopy := copyPart_within hwithin hin
    rw [hbytes] at hcopy
    rw [hcopy] at hq hp
    have hfound := @hostParsed_of_within maxhostLen scheme host tail hslash hwithin
    by_cases hfits : scheme.length + 1 ≤ maxSchemeLen.toNat
    · have hscheme : Within scheme.length maxSchemeLen := ⟨by omega, by omega⟩
      obtain ⟨p, hpathParsed, hsame, hurl⟩ :=
        parsePath_regular hslash hscheme hwithin (hpath hscheme hwithin)
      exact ⟨p, _, (hp hfits).trans hpathParsed, hq, hurl, hfound, fun _ => hsame,
        iff_of_true rfl rfl⟩
    · exact ⟨_, _, hlong hfits, hq, nofun, hfound, nofun, iff_of_true rfl rfl⟩
  · rw [copyPart_beyond hwithin hhost] at hq hp
    by_cases hfits : scheme.length + 1 ≤ maxSchemeLen.toNat
    · exact ⟨_, _, hp hfits, hq, nofun, nofun, fun _ => rfl, iff_of_false nofun nofun⟩
    · exact ⟨_, _, hlong hfits, hq, nofun, nofun, nofun, iff_of_false nofun nofun⟩

end Iff

/-- For every URL and limits, the two parsers split safely and agree if and only if the URL is
regular. -/
theorem splitsSafely_iff (url : Bytes) (maxSchemeLen maxhostLen maxPathLen : UInt32) :
    SplitsSafely url maxSchemeLen maxhostLen maxPathLen ↔
      Regular url maxSchemeLen maxhostLen maxPathLen := by
  cases hs : strstr separator url with
  | none =>
      rw [Regular, hs]
      refine iff_of_true ⟨.failed, .failed, ?_, ?_, nofun, nofun, fun _ => rfl,
        iff_of_false nofun nofun⟩ trivial
      · simp only [httpclientParseUrl, hs]
      · simp only [httpclientParseHost, hs]
  | some s =>
      cases hh : strchr slash (url.drop (s + 3)) with
      | none =>
          simp only [Regular, hs, hh]
          refine iff_of_false ?_ not_false
          rintro ⟨_, _, _, hq, _⟩
          simp only [httpclientParseHost, hs, hh] at hq
          cases hq
      | some h =>
          simp only [Regular, hs, hh]
          constructor
          · rintro ⟨p, q, hp, hq, hurl, hhost, -⟩
            exact ⟨host_not_wraps hs hh hq hhost,
              fun hscheme hwithin => path_not_wraps hs hh hscheme hwithin hp hurl⟩
          · rintro ⟨hhost, hpath⟩
            exact splitsSafely_of_regular hs hh hhost hpath

/-- A `#` right before the first `/`: the length of the path is -1, which with the terminator
is 0 and within every limit. -/
theorem fragment_before_path :
    httpclientParseUrl (ascii ['h', 't', 't', 'p', ':', '/', '/', 'h', '#', '/', 'p']) 8 64 64 =
        .error (.fault .load) ∧
      ¬SplitsSafely (ascii ['h', 't', 't', 'p', ':', '/', '/', 'h', '#', '/', 'p']) 8 64 64 := by
  have hrun : httpclientParseUrl
      (ascii ['h', 't', 't', 'p', ':', '/', '/', 'h', '#', '/', 'p']) 8 64 64 =
        .error (.fault .load) := by decide +kernel
  refine ⟨hrun, ?_⟩
  rintro ⟨p, -, hp, -⟩
  rw [hrun] at hp
  cases hp

end IotKit.Http.Url
