import Valise.CatalogRows
import Valise.StemCache
import Valise.Library.Runs

/-!
The analyzer of a text space: normalization, tokens, folding, stopwords, stems and lengths. Ingest in
batches takes its stems from a memo table; the tokens are the same.
-/

namespace Valise

open ByteLists Runs

/-- Unicode data, the stemmer and the hasher come from outside. -/
structure TextLibrary where
  isNfcQuick : String → Bool
  nfc : String → String
  nfkc : String → String
  nfd : String → String
  isCombiningMark : Char → Bool
  isAlphanumeric : Char → Bool
  isWhitespace : Char → Bool
  toLowercase : Char → List Char
  porter2 : Stemmer
  fxHash : Bytes → UInt64

/-- What the stemmer lends is its input. -/
def Stemmer.LendsInput (stem : Stemmer) : Prop :=
  ∀ text lent, stem text = .borrowed lent → lent = text

def englishLucene : List String :=
  ["a", "an", "and", "are", "as", "at", "be", "but", "by", "for", "if", "in", "into", "is", "it",
    "no", "not", "of", "on", "or", "such", "that", "the", "their", "then", "there", "these",
    "they", "this", "to", "was", "will", "with"]

def resolveStopwords : StopwordsPolicy → Option (List Bytes)
  | .none => none
  | .englishLucene => some (englishLucene.map toBytes)

/-- A trailing `'s` goes, with a straight or a curly apostrophe. -/
def stripEnglishPossessive (s : Bytes) : Bytes :=
  let n := s.length
  if n < 2 then s
  else if s[n - 1]? ≠ some 0x73 ∧ s[n - 1]? ≠ some 0x53 then s
  else if s[n - 2]? = some 0x27 then s.take (n - 2)
  else if 4 ≤ n ∧ (s.drop (n - 4)).take 3 = [0xE2, 0x80, 0x99] then s.take (n - 4)
  else s

def isAscii (byte : UInt8) : Bool := byte.toNat < 128

def isAsciiUppercase (byte : UInt8) : Bool := 65 ≤ byte.toNat && byte.toNat ≤ 90

def charLen (bytes : Bytes) : Nat :=
  if bytes.all isAscii = true then bytes.length
  else match fromUtf8 bytes with
    | some text => text.length
    | none => bytes.length

namespace TextLibrary

variable (library : TextLibrary)

def caseFold (text : String) : String :=
  String.ofList (text.toList.flatMap library.toLowercase)

def accentFold (text : String) : String :=
  library.nfc (String.ofList ((library.nfd text).toList.filter fun c => !library.isCombiningMark c))

/-- The maximal runs of characters that belong to a token. -/
def runs (belongs : Char → Bool) (text : String) : List String :=
  let scanned : List String × Option (List Char) := text.toList.foldl
    (fun scanned c =>
      if belongs c = true then (scanned.1, some (scanned.2.getD [] ++ [c]))
      else match scanned.2 with
        | some run => (scanned.1 ++ [String.ofList run], none)
        | none => scanned)
    ([], none)
  match scanned.2 with
  | some run => scanned.1 ++ [String.ofList run]
  | none => scanned.1

def tokenizeAsciiAlphanumeric (text : String) : List String := runs library.isAlphanumeric text

def tokenizeWhitespace (text : String) : List String :=
  runs (fun c => !library.isWhitespace c) text

def normalized (desc : AnalyzerDesc) (text : String) : String :=
  match desc.unicodeNormalization with
  | .none => text
  | .nfc => if library.isNfcQuick text = true then text else library.nfc text
  | .nfkc => library.nfkc text

def rawTokens (desc : AnalyzerDesc) (text : String) : Option (List String) :=
  match desc.tokenizer with
  | .unicodeWords => some (library.tokenizeAsciiAlphanumeric (library.normalized desc text))
  | .whitespace => some (library.tokenizeWhitespace (library.normalized desc text))
  | .charNgram => none
  | .tokenShingle => none

def stemmer (desc : AnalyzerDesc) : Option Stemmer :=
  match desc.stemming with
  | .none => none
  | .porter2English => some library.porter2

def foldedRaw (desc : AnalyzerDesc) (token : String) : Bytes :=
  let bytes := toBytes token
  if bytes ≠ [] ∧ (bytes.all fun b => isAscii b && !isAsciiUppercase b) = true then bytes
  else
    let cased := if desc.caseFold = true then library.caseFold token else token
    toBytes (if desc.accentFold = true then library.accentFold cased else cased)

/-- The folded token, unless nothing is left of it or it is a stopword. -/
def folded (desc : AnalyzerDesc) (token : String) : Option Bytes :=
  let foldedBytes := if desc.englishPossessiveStrip = true
    then stripEnglishPossessive (library.foldedRaw desc token) else library.foldedRaw desc token
  if foldedBytes = [] then none
  else match resolveStopwords desc.stopwords with
    | some stopwords => if foldedBytes ∈ stopwords then none else some foldedBytes
    | none => some foldedBytes

end TextLibrary

def AnalyzerDesc.lengthAllowed (desc : AnalyzerDesc) (bytes : Bytes) : Bool :=
  let min := desc.minTokenLen.toNat
  let max := desc.maxTokenLen.toNat
  if min ≠ 0 ∨ max ≠ 0 then
    !((min ≠ 0 && charLen bytes < min) || (max ≠ 0 && charLen bytes > max))
  else true

namespace TextLibrary

variable (library : TextLibrary)

/-- The stem of a folded token. -/
def finalOwned (desc : AnalyzerDesc) (foldedBytes : Bytes) : Bytes :=
  match library.stemmer desc, fromUtf8 foldedBytes with
  | some stem, some text =>
      match stem text with
      | .owned stemmed => toBytes stemmed
      | .borrowed _ => foldedBytes
  | _, _ => foldedBytes

def runTokenLoop (desc : AnalyzerDesc) : List String → List Bytes
  | [] => []
  | token :: rest =>
      match library.folded desc token with
      | none => runTokenLoop desc rest
      | some foldedBytes =>
          let final := library.finalOwned desc foldedBytes
          if desc.lengthAllowed final = true then final :: runTokenLoop desc rest
          else runTokenLoop desc rest

/-- The same loop with stems out of the table, which every lookup changes. -/
def runTokenLoopCached (desc : AnalyzerDesc) : List String → StemCache → List Bytes × StemCache
  | [], cache => ([], cache)
  | token :: rest, cache =>
      match library.folded desc token with
      | none => runTokenLoopCached desc rest cache
      | some foldedBytes =>
          let stemmed := cache.stemInto library.fxHash foldedBytes (library.stemmer desc)
          let later := runTokenLoopCached desc rest stemmed.2
          if desc.lengthAllowed stemmed.1 = true then (stemmed.1 :: later.1, later.2) else later

def analyze (desc : AnalyzerDesc) (text : String) : List Bytes :=
  match library.rawTokens desc text with
  | none => []
  | some tokens => library.runTokenLoop desc tokens

def analyzeWithCache (desc : AnalyzerDesc) (text : String) (cache : StemCache) :
    List Bytes × StemCache :=
  match library.rawTokens desc text with
  | none => ([], cache)
  | some tokens => library.runTokenLoopCached desc tokens cache

/-- The tokens of a payload, if it is UTF-8. -/
def analyzePayload (desc : AnalyzerDesc) (payload : Bytes) : Option (List Bytes) :=
  (fromUtf8 payload).map (library.analyze desc)

/-- The tables that runs of the loop leave behind, under any settings. -/
def CacheReached : StemCache → Prop :=
  Reachable (fun cache => cache = .new) fun before after =>
    ∃ desc tokens, after = (library.runTokenLoopCached desc tokens before).2

end TextLibrary

/-! ### Folded tokens are text -/

def IsText (bytes : Bytes) : Prop := ∃ text, bytes = toBytes text

theorem toBytes_isText (text : String) : IsText (toBytes text) := ⟨text, rfl⟩

theorem fromUtf8_toBytes (text : String) : fromUtf8 (toBytes text) = some text := by
  have same : (⟨(toBytes text).toArray⟩ : ByteArray) = text.toByteArray := by simp [toBytes]
  rw [fromUtf8, same, String.fromUTF8?, dif_pos text.isValidUTF8]
  rfl

/-- A text may be cut in front of a first byte. -/
theorem IsText.take {bytes : Bytes} (text : IsText bytes) {place : Nat} {byte : UInt8}
    (first : byte.IsUTF8FirstByte) (here : bytes[place]? = some byte) :
    IsText (bytes.take place) := by
  obtain ⟨text, rfl⟩ := text
  obtain ⟨inside, rfl⟩ := List.getElem?_eq_some_iff.mp here
  have before : place < text.toByteArray.size := by
    simpa [toBytes] using inside
  have boundary : (⟨place⟩ : String.Pos.Raw).IsValid text := by
    apply String.Pos.Raw.isValid_iff_isUTF8FirstByte.mpr
    refine .inr ⟨by simpa [String.Pos.Raw.lt_iff] using before, ?_⟩
    simpa [toBytes, String.getUTF8Byte, ByteArray.getElem_eq_getElem_data] using first
  have valid := (String.Pos.Raw.isValid_iff_isValidUTF8_extract_zero.mp boundary).2
  refine ⟨⟨text.toByteArray.extract 0 place, valid⟩, ?_⟩
  simp [toBytes, ByteArray.data_extract]

theorem stripEnglishPossessive_isText {bytes : Bytes} (text : IsText bytes) :
    IsText (stripEnglishPossessive bytes) := by
  unfold stripEnglishPossessive
  dsimp only
  split
  · exact text
  · split
    · exact text
    · split
      · rename_i apostrophe
        exact text.take (by decide) apostrophe
      · split
        · rename_i curly
          have first : bytes[bytes.length - 4]? = some 0xE2 := by
            have head := congrArg List.head? curly.2
            simpa [List.head?_take, List.head?_drop] using head
          exact text.take (by decide) first
        · exact text

namespace TextLibrary

variable {library : TextLibrary} {desc : AnalyzerDesc}

theorem folded_some {token : String} {foldedBytes : Bytes}
    (kept : library.folded desc token = some foldedBytes) :
    foldedBytes ≠ [] ∧ IsText foldedBytes := by
  have raw : IsText (library.foldedRaw desc token) := by
    unfold foldedRaw
    dsimp only
    split <;> exact toBytes_isText _
  have stripped : IsText (if desc.englishPossessiveStrip = true
      then stripEnglishPossessive (library.foldedRaw desc token)
      else library.foldedRaw desc token) := by
    split
    · exact stripEnglishPossessive_isText raw
    · exact raw
  unfold folded at kept
  dsimp only at kept
  generalize (if desc.englishPossessiveStrip = true
      then stripEnglishPossessive (library.foldedRaw desc token)
      else library.foldedRaw desc token) = bytes at kept stripped
  split at kept
  · cases kept
  · rename_i present
    have same : bytes = foldedBytes := by
      split at kept
      · split at kept
        · cases kept
        · exact Option.some.inj kept
      · exact Option.some.inj kept
    exact same ▸ ⟨present, stripped⟩

/-! ### One loop for the other -/

/-- On text the direct stem is what the plain loop computes. -/
theorem stemDirect_finalOwned (lends : library.porter2.LendsInput) {stem : Stemmer}
    (chosen : library.stemmer desc = some stem) {foldedBytes : Bytes} (text : IsText foldedBytes) :
    StemCache.stemDirect foldedBytes stem = library.finalOwned desc foldedBytes := by
  obtain ⟨text, rfl⟩ := text
  have porter : stem = library.porter2 := by
    unfold stemmer at chosen
    split at chosen
    · cases chosen
    · exact (Option.some.inj chosen).symm
  subst porter
  have read : fromUtf8Unchecked (toBytes text) = text := by
    rw [fromUtf8Unchecked, fromUtf8_toBytes]
    rfl
  simp only [StemCache.stemDirect, finalOwned, chosen, fromUtf8_toBytes, read]
  cases result : library.porter2 text with
  | owned stemmed => rfl
  | borrowed lent => rw [lends text lent result]

theorem stemInto_finalOwned (lends : library.porter2.LendsInput) {cache : StemCache}
    (memoizes : StemCache.Memoizes library.porter2 cache.slots) {foldedBytes : Bytes}
    (present : foldedBytes ≠ []) (text : IsText foldedBytes) :
    (cache.stemInto library.fxHash foldedBytes (library.stemmer desc)).1 =
        library.finalOwned desc foldedBytes ∧
      StemCache.Memoizes library.porter2
        (cache.stemInto library.fxHash foldedBytes (library.stemmer desc)).2.slots := by
  cases chosen : library.stemmer desc with
  | none =>
      refine ⟨?_, memoizes⟩
      simp only [StemCache.stemInto, finalOwned, chosen]
  | some stem =>
      have porter : stem = library.porter2 := by
        unfold stemmer at chosen
        split at chosen
        · cases chosen
        · exact (Option.some.inj chosen).symm
      subst porter
      obtain ⟨value, kept⟩ := StemCache.stemInto_memoizes library.fxHash memoizes present
      exact ⟨value.trans (stemDirect_finalOwned lends chosen text), kept⟩

theorem runTokenLoopCached_memoizes (lends : library.porter2.LendsInput) (tokens : List String)
    {cache : StemCache} (memoizes : StemCache.Memoizes library.porter2 cache.slots) :
    (library.runTokenLoopCached desc tokens cache).1 = library.runTokenLoop desc tokens ∧
      StemCache.Memoizes library.porter2 (library.runTokenLoopCached desc tokens cache).2.slots := by
  induction tokens generalizing cache with
  | nil => exact ⟨rfl, memoizes⟩
  | cons token rest ih =>
      unfold runTokenLoopCached runTokenLoop
      cases kept : library.folded desc token with
      | none => exact ih memoizes
      | some foldedBytes =>
          obtain ⟨present, text⟩ := folded_some kept
          obtain ⟨value, after⟩ := stemInto_finalOwned lends memoizes present text
          obtain ⟨later, held⟩ := ih after
          dsimp only
          rw [value]
          split
          · exact ⟨congrArg _ later, held⟩
          · exact ⟨later, held⟩

theorem CacheReached.memoizes (lends : library.porter2.LendsInput) {cache : StemCache}
    (reached : library.CacheReached cache) : StemCache.Memoizes library.porter2 cache.slots := by
  induction reached with
  | start init => exact init ▸ StemCache.new_memoizes
  | step _ step ih =>
      obtain ⟨desc, tokens, rfl⟩ := step
      exact (runTokenLoopCached_memoizes lends tokens ih).2

theorem analyzeWithCache_memoizes (lends : library.porter2.LendsInput) (text : String)
    {cache : StemCache} (memoizes : StemCache.Memoizes library.porter2 cache.slots) :
    (library.analyzeWithCache desc text cache).1 = library.analyze desc text ∧
      StemCache.Memoizes library.porter2 (library.analyzeWithCache desc text cache).2.slots := by
  unfold analyzeWithCache analyze
  cases library.rawTokens desc text with
  | none => exact ⟨rfl, memoizes⟩
  | some tokens => exact runTokenLoopCached_memoizes lends tokens memoizes

end TextLibrary

end Valise
