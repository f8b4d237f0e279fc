import Valise.Toc

/-!
Reading footers from a file: one footer at an offset, and the chunked scan for all of them.
A file is its header and the bytes that follow the 4 KB header region.
-/

namespace Valise

open ByteLists Outcomes

def fileLen (data : Bytes) : Nat := headerSize + data.length

/-- `read_exact` at an absolute offset past the header region. -/
def readExact (data : Bytes) (offset len : Nat) : Result Bytes :=
  if headerSize ≤ offset ∧ offset + len ≤ fileLen data then
    .ok (slice data (offset - headerSize) len)
  else .err .io

/-- Unchecked `u64` addition: a debug build aborts on overflow, and in `readTocFooter` a release
build aborts right after, when it allocates a buffer of the length that wrapped. -/
def uncheckedAdd (left right : Nat) : Result Nat :=
  if left + right < 2 ^ 64 then .ok (left + right) else .panic

section Footers

variable (blake3 : Bytes → Checksum)

def readTocFooter (data : Bytes) (offset : Nat) : Result TocFooter := do
  Outcome.ensure (offset ≠ 0) (.format "header does not point to a TOC footer")
  Outcome.ensure (offset < fileLen data) (.format "TOC footer offset is past EOF")
  let header ← readExact data offset tocHeaderLen
  let footerLen ← TocFooterCodec.encodedLenFromHeader header
  let finish ← uncheckedAdd offset footerLen
  Outcome.ensure (finish ≤ fileLen data) (.format "TOC footer body is past EOF")
  let rest ← readExact data (offset + tocHeaderLen) (footerLen - tocHeaderLen)
  let (footer, _) ← TocFooterCodec.decode blake3 (header ++ rest)
  return footer

def writeTocFooterAtEnd (data : Bytes) (footer : TocFooter) : Result Bytes := do
  let bytes ← TocFooterCodec.encode blake3 footer
  return data ++ bytes

structure FooterCandidate where
  offset : Nat
  footer : TocFooter
deriving DecidableEq

/-- Try every occurrence of the magic in one buffer whose first byte is at offset `base`. -/
def scanBuffer (data : Bytes) (base : Nat) : Bytes → Result (List FooterCandidate)
  | [] => .ok []
  | byte :: rest =>
      if tocMagic.isPrefixOf (byte :: rest) then
        match readTocFooter blake3 data base with
        | .ok footer => do
            let candidates ← scanBuffer data (base + 1) rest
            return ⟨base, footer⟩ :: candidates
        | .err _ => scanBuffer data (base + 1) rest
        | .panic => .panic
      else scanBuffer data (base + 1) rest

/-- Stream the data region in chunks; `carry` holds the last bytes of the previous chunk. -/
def scanChunks (chunk : Nat) (data : Bytes) : Nat → Bytes → Nat → Result (List FooterCandidate)
  | 0, _, _ => .ok []
  | fuel + 1, carry, next =>
      if next < data.length then do
        let want := min chunk (data.length - next)
        let buffer := carry ++ slice data next want
        let found ← scanBuffer blake3 data (headerSize + next - carry.length) buffer
        let keep := min buffer.length (tocMagic.length - 1)
        let more ← scanChunks chunk data fuel (buffer.drop (buffer.length - keep)) (next + want)
        return found ++ more
      else .ok []

def scanChunkLen : Nat := 8 * 1024 * 1024

def scanForFooterCandidates (data : Bytes) : Result (List FooterCandidate) :=
  scanChunks blake3 scanChunkLen data data.length [] 0

/-! ### The scan visits every offset once, whatever the chunk boundaries -/

theorem scanBuffer_short (data : Bytes) (base : Nat) (buffer : Bytes)
    (short : buffer.length < tocMagic.length) : scanBuffer blake3 data base buffer = .ok [] := by
  induction buffer generalizing base with
  | nil => rfl
  | cons byte rest ih =>
      have noMagic : ¬tocMagic.isPrefixOf (byte :: rest) = true := by
        rw [List.isPrefixOf_iff_prefix]
        intro magic
        have bound := magic.length_le
        omega
      rw [scanBuffer, if_neg noMagic]
      apply ih
      simp only [List.length_cons] at short
      omega

theorem magic_append (buffer more : Bytes) (long : tocMagic.length ≤ buffer.length) :
    tocMagic.isPrefixOf (buffer ++ more) = tocMagic.isPrefixOf buffer := by
  rw [Bool.eq_iff_iff, List.isPrefixOf_iff_prefix, List.isPrefixOf_iff_prefix]
  constructor
  · intro magic
    exact List.prefix_of_prefix_length_le magic (List.prefix_append _ _) long
  · intro magic
    exact magic.trans (List.prefix_append _ _)

/-- The last three bytes of a buffer hold no whole magic and are scanned again with what follows. -/
theorem scanBuffer_append (data : Bytes) (base : Nat) (buffer more : Bytes) :
    scanBuffer blake3 data base (buffer ++ more) = (do
      let found ← scanBuffer blake3 data base buffer
      let keep := min buffer.length (tocMagic.length - 1)
      let rest ← scanBuffer blake3 data (base + (buffer.length - keep))
        (buffer.drop (buffer.length - keep) ++ more)
      return found ++ rest) := by
  induction buffer generalizing base with
  | nil =>
      simp only [List.nil_append, scanBuffer, List.length_nil, Nat.zero_min, Nat.sub_zero,
        Nat.add_zero, List.drop_nil, Outcome.ok_bind, Outcome.pure_eq]
      cases scanBuffer blake3 data base more <;> rfl
  | cons byte rest ih =>
      by_cases short : (byte :: rest).length < tocMagic.length
      · have keepAll : min (byte :: rest).length (tocMagic.length - 1) =
            (byte :: rest).length := by
          simp only [tocMagic, List.length_cons, List.length_nil] at short ⊢
          omega
        rw [scanBuffer_short blake3 data base _ short]
        simp only [keepAll, Nat.sub_self, Nat.add_zero, List.drop_zero, Outcome.ok_bind,
          Outcome.pure_eq, List.nil_append]
        cases scanBuffer blake3 data base (byte :: rest ++ more) <;> rfl
      · have long : 3 ≤ rest.length := by
          simp only [tocMagic, List.length_cons, List.length_nil] at short
          omega
        have keepThree : min (byte :: rest).length (tocMagic.length - 1) = 3 := by
          simp only [tocMagic, List.length_cons, List.length_nil]
          omega
        have keepRest : min rest.length (tocMagic.length - 1) = 3 := by
          simp only [tocMagic, List.length_cons, List.length_nil]
          omega
        have shift : (byte :: rest).length - 3 = (rest.length - 3) + 1 := by
          simp only [List.length_cons]
          omega
        have same := magic_append (byte :: rest) more (by omega)
        have offset : base + 1 + (rest.length - 3) = base + (rest.length - 3 + 1) := by omega
        have tail := ih (base + 1)
        simp only [keepRest, offset] at tail
        simp only [List.cons_append] at same ⊢
        rw [scanBuffer, scanBuffer, same, keepThree, shift, List.drop_succ_cons, tail]
        split
        · cases read : readTocFooter blake3 data base with
          | ok footer =>
              cases scanBuffer blake3 data (base + 1) rest with
              | ok found =>
                  simp only [Outcome.ok_bind, Outcome.pure_eq]
                  cases scanBuffer blake3 data (base + (rest.length - 3 + 1))
                    (rest.drop (rest.length - 3) ++ more) <;> rfl
              | err error => rfl
              | panic => rfl
          | err error => rfl
          | panic => rfl
        · rfl

theorem scanChunks_eq (chunk : Nat) (data : Bytes) (fuel : Nat) (carry : Bytes) (next : Nat)
    (advances : 0 < chunk) (enough : data.length - next ≤ fuel)
    (carryShort : carry.length < tocMagic.length) (carryRead : carry.length ≤ next) :
    scanChunks blake3 chunk data fuel carry next =
      scanBuffer blake3 data (headerSize + next - carry.length) (carry ++ data.drop next) := by
  induction fuel generalizing carry next with
  | zero =>
      rw [List.drop_eq_nil_of_le (by omega), List.append_nil, scanBuffer_short _ _ _ _ carryShort]
      rfl
  | succ fuel ih =>
      unfold scanChunks
      by_cases inside : next < data.length
      · have wantLength : (slice data next (min chunk (data.length - next))).length =
            min chunk (data.length - next) := slice_length (by omega)
        have split : data.drop next = slice data next (min chunk (data.length - next)) ++
            data.drop (next + min chunk (data.length - next)) := by
          rw [slice, ← List.drop_drop, List.take_append_drop]
        rw [if_pos inside, split, ← List.append_assoc, scanBuffer_append]
        dsimp only
        generalize slice data next (min chunk (data.length - next)) = fresh at wantLength
        generalize hold : min (carry ++ fresh).length (tocMagic.length - 1) = keep
        have keepLength : ((carry ++ fresh).drop ((carry ++ fresh).length - keep)).length = keep := by
          rw [List.length_drop]
          omega
        have total : (carry ++ fresh).length = carry.length + fresh.length :=
          List.length_append
        simp only [tocMagic, List.length_cons, List.length_nil] at carryShort hold
        have rest := ih ((carry ++ fresh).drop ((carry ++ fresh).length - keep))
          (next + min chunk (data.length - next)) (by omega)
          (by rw [keepLength]; simp only [tocMagic, List.length_cons, List.length_nil]; omega)
          (by rw [keepLength]; omega)
        rw [keepLength] at rest
        have base : headerSize + next - carry.length + ((carry ++ fresh).length - keep) =
            headerSize + (next + min chunk (data.length - next)) - keep := by omega
        simp only [rest, base]
      · rw [if_neg inside, List.drop_eq_nil_of_le (by omega), List.append_nil,
          scanBuffer_short _ _ _ _ carryShort]

theorem scanForFooterCandidates_eq (data : Bytes) :
    scanForFooterCandidates blake3 data = scanBuffer blake3 data headerSize data := by
  have whole := scanChunks_eq blake3 scanChunkLen data data.length [] 0 (by decide) (by omega)
    (by decide) (by simp)
  simpa [scanForFooterCandidates] using whole

/-! ### What a scan returns -/

theorem scanBuffer_mem (data : Bytes) (base : Nat) (buffer : Bytes)
    {candidates : List FooterCandidate}
    (scanned : scanBuffer blake3 data base buffer = .ok candidates) (candidate : FooterCandidate) :
    candidate ∈ candidates ↔
      base ≤ candidate.offset ∧ tocMagic <+: buffer.drop (candidate.offset - base) ∧
        readTocFooter blake3 data candidate.offset = .ok candidate.footer := by
  induction buffer generalizing base candidates with
  | nil =>
      simp only [scanBuffer, Outcome.ok.injEq] at scanned
      subst scanned
      simp [tocMagic]
  | cons byte rest ih =>
      have later : base + 1 ≤ candidate.offset →
          (byte :: rest).drop (candidate.offset - base) =
            rest.drop (candidate.offset - (base + 1)) := by
        intro past
        have step : candidate.offset - base = candidate.offset - (base + 1) + 1 := by omega
        rw [step, List.drop_succ_cons]
      have skipped {tail : List FooterCandidate}
          (rest_scanned : scanBuffer blake3 data (base + 1) rest = .ok tail)
          (noFooter : tocMagic <+: byte :: rest →
            ∀ footer, readTocFooter blake3 data base ≠ .ok footer) :
          candidate ∈ tail ↔
            base ≤ candidate.offset ∧ tocMagic <+: (byte :: rest).drop (candidate.offset - base) ∧
              readTocFooter blake3 data candidate.offset = .ok candidate.footer := by
        rw [ih (base + 1) rest_scanned]
        constructor
        · rintro ⟨past, magic, read⟩
          exact ⟨by omega, by rw [later past]; exact magic, read⟩
        · rintro ⟨atLeast, magic, read⟩
          by_cases here : candidate.offset = base
          · rw [here, Nat.sub_self, List.drop_zero] at magic
            exact absurd (here ▸ read) (noFooter magic candidate.footer)
          · have past : base + 1 ≤ candidate.offset := by omega
            exact ⟨past, by rw [← later past]; exact magic, read⟩
      rw [scanBuffer] at scanned
      split at scanned
      · next magic =>
          rw [List.isPrefixOf_iff_prefix] at magic
          split at scanned
          · next footer read =>
              obtain ⟨tail, tailScanned, result⟩ := Outcome.bind_eq_ok.mp scanned
              simp only [Outcome.pure_eq, Outcome.ok.injEq] at result
              subst result
              rw [List.mem_cons, ih (base + 1) tailScanned]
              constructor
              · rintro (rfl | ⟨past, magicLater, readLater⟩)
                · simpa using ⟨magic, read⟩
                · exact ⟨by omega, by rw [later past]; exact magicLater, readLater⟩
              · rintro ⟨atLeast, magicLater, readLater⟩
                by_cases here : candidate.offset = base
                · left
                  obtain ⟨offset, found⟩ := candidate
                  simp only at here readLater
                  subst here
                  rw [read, Outcome.ok.injEq] at readLater
                  rw [readLater]
                · have past : base + 1 ≤ candidate.offset := by omega
                  exact Or.inr ⟨past, by rw [← later past]; exact magicLater, readLater⟩
          · next error read =>
              exact skipped scanned fun _ footer same => by rw [read] at same; cases same
          · exact absurd scanned (by simp)
      · next noMagic =>
          rw [List.isPrefixOf_iff_prefix] at noMagic
          exact skipped scanned fun magic => absurd magic noMagic

theorem scanBuffer_offset (data : Bytes) (base : Nat) (buffer : Bytes)
    {candidates : List FooterCandidate}
    (scanned : scanBuffer blake3 data base buffer = .ok candidates) :
    candidates.Pairwise (fun left right => left.offset < right.offset) := by
  induction buffer generalizing base candidates with
  | nil =>
      simp only [scanBuffer, Outcome.ok.injEq] at scanned
      subst scanned
      exact List.Pairwise.nil
  | cons byte rest ih =>
      rw [scanBuffer] at scanned
      split at scanned
      · split at scanned
        · next footer read =>
            obtain ⟨tail, tailScanned, result⟩ := Outcome.bind_eq_ok.mp scanned
            simp only [Outcome.pure_eq, Outcome.ok.injEq] at result
            subst result
            refine List.pairwise_cons.mpr ⟨fun candidate member => ?_, ih (base + 1) tailScanned⟩
            have past := ((scanBuffer_mem blake3 data (base + 1) rest tailScanned candidate).mp
              member).1
            change base < candidate.offset
            omega
        · exact ih (base + 1) scanned
        · exact absurd scanned (by simp)
      · exact ih (base + 1) scanned

theorem scanBuffer_ok_or_panic (data : Bytes) (base : Nat) (buffer : Bytes) :
    (∃ candidates, scanBuffer blake3 data base buffer = .ok candidates) ∨
      scanBuffer blake3 data base buffer = .panic := by
  induction buffer generalizing base with
  | nil => exact Or.inl ⟨[], rfl⟩
  | cons byte rest ih =>
      rw [scanBuffer]
      split
      · split
        · rcases ih (base + 1) with ⟨candidates, scanned⟩ | aborted
          · exact Or.inl ⟨_, by rw [scanned]; rfl⟩
          · exact Or.inr (by rw [aborted]; rfl)
        · exact ih (base + 1)
        · exact Or.inr rfl
      · exact ih (base + 1)

theorem scanBuffer_panic (data : Bytes) (base : Nat) (buffer : Bytes) :
    scanBuffer blake3 data base buffer = .panic ↔
      ∃ skip, tocMagic <+: buffer.drop skip ∧
        readTocFooter blake3 data (base + skip) = .panic := by
  induction buffer generalizing base with
  | nil => simp [scanBuffer, tocMagic]
  | cons byte rest ih =>
      have later : (∃ skip, tocMagic <+: (byte :: rest).drop skip ∧
            readTocFooter blake3 data (base + skip) = .panic) ↔
          (tocMagic <+: byte :: rest ∧ readTocFooter blake3 data base = .panic) ∨
            scanBuffer blake3 data (base + 1) rest = .panic := by
        rw [ih (base + 1)]
        constructor
        · rintro ⟨skip, magic, aborts⟩
          cases skip with
          | zero => exact Or.inl ⟨magic, aborts⟩
          | succ skip =>
              exact Or.inr ⟨skip, magic, by rw [← aborts]; congr 1; omega⟩
        · rintro (⟨magic, aborts⟩ | ⟨skip, magic, aborts⟩)
          · exact ⟨0, magic, aborts⟩
          · exact ⟨skip + 1, magic, by rw [← aborts]; congr 1; omega⟩
      rw [later, scanBuffer]
      split
      · next magic =>
          rw [List.isPrefixOf_iff_prefix] at magic
          split
          · next footer read =>
              simp only [read, Outcome.bind_eq_panic, Outcome.pure_eq, reduceCtorEq, and_false,
                exists_false, or_false, false_or]
          · next error read => simp only [read, reduceCtorEq, and_false, false_or]
          · next aborts => simp only [magic, aborts, and_self, true_or]
      · next noMagic =>
          rw [List.isPrefixOf_iff_prefix] at noMagic
          simp only [noMagic, false_and, false_or]

/-! ### One footer read -/

theorem readExact_ok {data : Bytes} {offset len : Nat} {bytes : Bytes} :
    readExact data offset len = .ok bytes ↔
      headerSize ≤ offset ∧ offset + len ≤ fileLen data ∧
        bytes = slice data (offset - headerSize) len := by
  unfold readExact
  split
  · next inside => simp [inside, eq_comm]
  · next outside =>
      simp only [reduceCtorEq, false_iff]
      rintro ⟨low, high, -⟩
      exact outside ⟨low, high⟩

@[simp] theorem readExact_ne_panic {data : Bytes} {offset len : Nat} :
    readExact data offset len ≠ .panic := by
  unfold readExact
  split <;> simp

theorem readExact_append {data : Bytes} (tail : Bytes) {offset len : Nat} {bytes : Bytes}
    (read : readExact data offset len = .ok bytes) :
    readExact (data ++ tail) offset len = .ok bytes := by
  obtain ⟨low, high, rfl⟩ := readExact_ok.mp read
  unfold fileLen at high
  refine readExact_ok.mpr ⟨low, ?_, ?_⟩
  · simp only [fileLen, List.length_append]
    omega
  · rw [slice_append_left _ _ _ _ (by omega)]

/-- A header at `offset` whose length field carries the end of the footer past `2 ^ 64`. -/
def WrapsAt (data : Bytes) (offset : Nat) : Prop :=
  ∃ header footerLen, readExact data offset tocHeaderLen = .ok header ∧
    TocFooterCodec.encodedLenFromHeader header = .ok footerLen ∧ 2 ^ 64 ≤ offset + footerLen

theorem uncheckedAdd_ok {left right sum : Nat} :
    uncheckedAdd left right = .ok sum ↔ left + right < 2 ^ 64 ∧ sum = left + right := by
  unfold uncheckedAdd
  split
  · next fits => exact ⟨fun same => ⟨fits, (Outcome.ok.inj same).symm⟩, fun ⟨_, same⟩ => same ▸ rfl⟩
  · next wraps => exact ⟨nofun, fun ⟨fits, _⟩ => absurd fits wraps⟩

theorem encodedLen_ge {header : Bytes} {footerLen : Nat}
    (accepted : TocFooterCodec.encodedLenFromHeader header = .ok footerLen) :
    tocHeaderLen ≤ footerLen := by
  obtain ⟨bodyLen, -, -, rfl⟩ := TocFooterCodec.encodedLenFromHeader_ok.mp accepted
  omega

/-- A read that found a header passed the two offset checks. -/
theorem readTocFooter_header {data header : Bytes} {offset : Nat}
    (read : readExact data offset tocHeaderLen = .ok header) :
    readTocFooter blake3 data offset = (do
      let footerLen ← TocFooterCodec.encodedLenFromHeader header
      let finish ← uncheckedAdd offset footerLen
      Outcome.ensure (finish ≤ fileLen data) (.format "TOC footer body is past EOF")
      let rest ← readExact data (offset + tocHeaderLen) (footerLen - tocHeaderLen)
      let (footer, _) ← TocFooterCodec.decode blake3 (header ++ rest)
      return footer) := by
  obtain ⟨low, high, -⟩ := readExact_ok.mp read
  have nonzero : offset ≠ 0 := by
    simp only [headerSize] at low
    omega
  have inside : offset < fileLen data := by
    simp only [tocHeaderLen] at high
    omega
  unfold readTocFooter
  rw [Outcome.ensure_true _ nonzero, Outcome.ensure_true _ inside, read]
  rfl

theorem readTocFooter_panic {data : Bytes} {offset : Nat} :
    readTocFooter blake3 data offset = .panic ↔ WrapsAt data offset := by
  constructor
  · intro aborts
    have findHeader : ∃ header, readExact data offset tocHeaderLen = .ok header := by
      unfold readTocFooter at aborts
      cases read : readExact data offset tocHeaderLen with
      | ok header => exact ⟨header, rfl⟩
      | err error =>
          rw [read] at aborts
          refine absurd aborts ?_
          refine Outcome.bind_ne_panic Outcome.ensure_ne_panic fun _ => ?_
          exact Outcome.bind_ne_panic Outcome.ensure_ne_panic fun _ => by simp
      | panic => exact absurd read readExact_ne_panic
    obtain ⟨header, read⟩ := findHeader
    rw [readTocFooter_header blake3 read] at aborts
    cases accepted : TocFooterCodec.encodedLenFromHeader header with
    | ok footerLen =>
        refine ⟨header, footerLen, read, accepted, ?_⟩
        by_contra fits
        rw [accepted, Outcome.ok_bind, uncheckedAdd, if_pos (by omega), Outcome.ok_bind] at aborts
        refine absurd aborts ?_
        refine Outcome.bind_ne_panic Outcome.ensure_ne_panic fun _ => ?_
        refine Outcome.bind_ne_panic readExact_ne_panic fun _ => ?_
        exact Outcome.bind_ne_panic (TocFooterCodec.decode_ne_panic blake3 _) fun _ => by simp
    | err error =>
        rw [accepted] at aborts
        cases aborts
    | panic => exact absurd accepted (TocFooterCodec.encodedLenFromHeader_ne_panic header)
  · rintro ⟨header, footerLen, read, accepted, wraps⟩
    rw [readTocFooter_header blake3 read, accepted, Outcome.ok_bind, uncheckedAdd,
      if_neg (by omega)]
    rfl

theorem readTocFooter_ok {data : Bytes} {offset : Nat} {footer : TocFooter} :
    readTocFooter blake3 data offset = .ok footer ↔
      ∃ header footerLen rest total, readExact data offset tocHeaderLen = .ok header ∧
        TocFooterCodec.encodedLenFromHeader header = .ok footerLen ∧ offset + footerLen < 2 ^ 64 ∧
        readExact data (offset + tocHeaderLen) (footerLen - tocHeaderLen) = .ok rest ∧
        TocFooterCodec.decode blake3 (header ++ rest) = .ok (footer, total) := by
  constructor
  · intro found
    unfold readTocFooter at found
    simp only [Outcome.bind_eq_ok, Outcome.ensure_eq_ok, uncheckedAdd_ok, Outcome.pure_eq,
      Outcome.ok.injEq] at found
    obtain ⟨-, -, -, -, header, read, footerLen, accepted, finish, ⟨fits, rfl⟩, -, -, rest,
      readRest, ⟨decoded, total⟩, decodes, rfl⟩ := found
    exact ⟨header, footerLen, rest, total, read, accepted, fits, readRest, decodes⟩
  · rintro ⟨header, footerLen, rest, total, read, accepted, fits, readRest, decodes⟩
    have inside : offset + footerLen ≤ fileLen data := by
      have bound := (readExact_ok.mp readRest).2.1
      have atLeast := encodedLen_ge accepted
      omega
    rw [readTocFooter_header blake3 read, accepted, Outcome.ok_bind, uncheckedAdd, if_pos fits,
      Outcome.ok_bind, Outcome.ensure_true _ inside, Outcome.ok_bind, readRest, Outcome.ok_bind,
      decodes]
    rfl

/-- Appending to the file changes neither a footer that was read nor an abort. -/
theorem readTocFooter_append {data : Bytes} (tail : Bytes) {offset : Nat} {footer : TocFooter}
    (found : readTocFooter blake3 data offset = .ok footer) :
    readTocFooter blake3 (data ++ tail) offset = .ok footer := by
  obtain ⟨header, footerLen, rest, total, read, accepted, fits, readRest, decodes⟩ :=
    (readTocFooter_ok blake3).mp found
  exact (readTocFooter_ok blake3).mpr ⟨header, footerLen, rest, total, readExact_append tail read,
    accepted, fits, readExact_append tail readRest, decodes⟩

theorem WrapsAt.append {data : Bytes} (tail : Bytes) {offset : Nat} (wraps : WrapsAt data offset) :
    WrapsAt (data ++ tail) offset := by
  obtain ⟨header, footerLen, read, accepted, past⟩ := wraps
  exact ⟨header, footerLen, readExact_append tail read, accepted, past⟩

theorem readTocFooter_magic {data : Bytes} {offset : Nat}
    (starts : (∃ footer, readTocFooter blake3 data offset = .ok footer) ∨ WrapsAt data offset) :
    headerSize ≤ offset ∧ tocMagic <+: data.drop (offset - headerSize) := by
  obtain ⟨header, footerLen, read, accepted⟩ : ∃ header footerLen,
      readExact data offset tocHeaderLen = .ok header ∧
        TocFooterCodec.encodedLenFromHeader header = .ok footerLen := by
    rcases starts with ⟨footer, found⟩ | ⟨header, footerLen, read, accepted, -⟩
    · obtain ⟨header, footerLen, -, -, read, accepted, -⟩ := (readTocFooter_ok blake3).mp found
      exact ⟨header, footerLen, read, accepted⟩
    · exact ⟨header, footerLen, read, accepted⟩
  obtain ⟨low, -, contents⟩ := readExact_ok.mp read
  obtain ⟨bodyLen, checked, -, -⟩ := TocFooterCodec.encodedLenFromHeader_ok.mp accepted
  have magic := (TocFooterCodec.checkHeader_ok.mp checked).1
  rw [contents, slice_slice _ _ _ _ _ (by decide), slice, Nat.add_zero] at magic
  exact ⟨low, magic ▸ List.take_prefix _ _⟩

/-! ### Footers that a commit appended -/

theorem encodedLen_image (body : TocFooterBody)
    (fits : tocHeaderLen + (TocFooterBody.codec.encode body).length < 2 ^ 64) :
    TocFooterCodec.encodedLenFromHeader (slice (TocFooterCodec.image blake3 body) 0 tocHeaderLen) =
      .ok (TocFooterCodec.image blake3 body).length := by
  have digest := (TocFooterCodec.footerChecksum blake3 body.snapshotGeneration
    (TocFooterBody.codec.encode body)).2
  simp only [blake3Len] at digest
  have header : slice (TocFooterCodec.image blake3 body) 0 tocHeaderLen =
      TocFooterCodec.fields body.snapshotGeneration (TocFooterBody.codec.encode body).length
          (blake3 (TocFooterBody.codec.encode body)) ++
        (TocFooterCodec.footerChecksum blake3 body.snapshotGeneration
          (TocFooterBody.codec.encode body)).1 := by
    simp [slice, TocFooterCodec.image, tocHeaderLen, List.take_append, digest]
  rw [TocFooterCodec.encodedLenFromHeader_ok, header, TocFooterCodec.image_length]
  exact ⟨_, TocFooterCodec.checkHeader_fields _ _ _ _ (by omega), fits, rfl⟩

theorem readExact_image (front back : Bytes) (body : TocFooterBody) :
    readExact (front ++ TocFooterCodec.image blake3 body ++ back) (headerSize + front.length)
        tocHeaderLen = .ok (slice (TocFooterCodec.image blake3 body) 0 tocHeaderLen) := by
  have long := TocFooterCodec.image_length blake3 body
  refine readExact_ok.mpr ⟨by omega, ?_, ?_⟩
  · simp only [fileLen, List.length_append]
    omega
  · rw [Nat.add_sub_cancel_left, List.append_assoc]
    have shifted := slice_append_right front (TocFooterCodec.image blake3 body ++ back) 0
      tocHeaderLen
    rw [Nat.add_zero] at shifted
    rw [shifted, slice_append_left _ _ _ _ (by omega)]

theorem readTocFooter_image (front back : Bytes) (body : TocFooterBody)
    (fits : fileLen (front ++ TocFooterCodec.image blake3 body) < 2 ^ 64) :
    readTocFooter blake3 (front ++ TocFooterCodec.image blake3 body ++ back)
      (headerSize + front.length) = .ok (TocFooterCodec.encodeBody blake3 body) := by
  have long := TocFooterCodec.image_length blake3 body
  simp only [fileLen, List.length_append] at fits
  have whole : slice (TocFooterCodec.image blake3 body) 0 tocHeaderLen ++
      slice (TocFooterCodec.image blake3 body) tocHeaderLen
        ((TocFooterCodec.image blake3 body).length - tocHeaderLen) =
      TocFooterCodec.image blake3 body := by
    have rest : ((TocFooterCodec.image blake3 body).drop tocHeaderLen).take
        ((TocFooterCodec.image blake3 body).length - tocHeaderLen) =
          (TocFooterCodec.image blake3 body).drop tocHeaderLen :=
      List.take_of_length_le (by simp)
    rw [slice, slice, List.drop_zero, rest, List.take_append_drop]
  have decodes := TocFooterCodec.decode_image blake3 body [] (by omega)
  rw [List.append_nil] at decodes
  refine (readTocFooter_ok blake3).mpr ⟨_, _, _, _, readExact_image blake3 front back body,
    encodedLen_image blake3 body (by omega), by omega, ?_, whole ▸ decodes⟩
  refine readExact_ok.mpr ⟨by omega, ?_, ?_⟩
  · simp only [fileLen, List.length_append]
    omega
  · have start : headerSize + front.length + tocHeaderLen - headerSize =
        front.length + tocHeaderLen := by omega
    rw [start, List.append_assoc, slice_append_right, slice_append_left _ _ _ _ (by omega)]

/-- A footer at the end of the file is read back. -/
theorem readTocFooter_end (front : Bytes) (body : TocFooterBody)
    (fits : fileLen (front ++ TocFooterCodec.image blake3 body) < 2 ^ 64) :
    readTocFooter blake3 (front ++ TocFooterCodec.image blake3 body)
      (headerSize + front.length) = .ok (TocFooterCodec.encodeBody blake3 body) := by
  have read := readTocFooter_image blake3 front [] body fits
  rwa [List.append_nil] at read

/-- The whole scan: every readable footer once, unless some header wraps. -/
theorem scanForFooterCandidates_mem {data : Bytes} {candidates : List FooterCandidate}
    (scanned : scanForFooterCandidates blake3 data = .ok candidates)
    (candidate : FooterCandidate) :
    candidate ∈ candidates ↔
      readTocFooter blake3 data candidate.offset = .ok candidate.footer := by
  rw [scanForFooterCandidates_eq] at scanned
  rw [scanBuffer_mem blake3 data headerSize data scanned]
  constructor
  · exact fun member => member.2.2
  · intro found
    have starts := readTocFooter_magic blake3 (Or.inl ⟨_, found⟩)
    exact ⟨starts.1, starts.2, found⟩

theorem scanForFooterCandidates_panic {data : Bytes} :
    scanForFooterCandidates blake3 data = .panic ↔ ∃ offset, WrapsAt data offset := by
  rw [scanForFooterCandidates_eq, scanBuffer_panic]
  constructor
  · rintro ⟨skip, -, aborts⟩
    exact ⟨_, (readTocFooter_panic blake3).mp aborts⟩
  · rintro ⟨offset, wraps⟩
    have starts := readTocFooter_magic blake3 (Or.inr wraps)
    have back : headerSize + (offset - headerSize) = offset := by
      have low := starts.1
      omega
    refine ⟨offset - headerSize, starts.2, ?_⟩
    rw [back]
    exact (readTocFooter_panic blake3).mpr wraps

theorem scanForFooterCandidates_total {data : Bytes} (noWrap : ∀ offset, ¬WrapsAt data offset) :
    ∃ candidates, scanForFooterCandidates blake3 data = .ok candidates := by
  rcases scanBuffer_ok_or_panic blake3 data headerSize data with found | aborts
  · rwa [scanForFooterCandidates_eq]
  · rw [← scanForFooterCandidates_eq, scanForFooterCandidates_panic] at aborts
    obtain ⟨offset, wraps⟩ := aborts
    exact absurd wraps (noWrap offset)

end Footers

end Valise
