import VizNode.Protocol
import VizNode.Lib.Decimal

/-!
# `VizNode.Protocol.Asset` — amounts as text

`asset::to_string` prints the two halves of an amount apart, and `from_string` reads them apart. The sign
belongs to the first half alone: a negative amount whose second half is not zero is printed from a
negative remainder, and read back by adding what should be subtracted.

**The number written in a text** is said without the parser: a `Reading` is a sign, the digits before the
point, the digits behind it and the name. A text has at most one reading, and the parser accepts exactly
the readings within its bounds.

The arithmetic on `amount.value` is on raw 64-bit integers; it wraps.

## Contents
- **The code.** `toString`, `fromString`, over the conversions and `trim` of `fc`.
- **Readings.** `Reading`, unique for each text; `fromString_reading`, what is accepted and as what.
- **The sign and the range.** `parsed_amount_iff`, when the amount is the number written.
- **The round trip.** `toString_reading`, and when the text is read back as the same asset.
-/

namespace VizNode

open Decimal

/-! ## The code -/

/-- **The text conversions of `fc`.** -/
structure Fc where
  trim     : List Char → List Char
  toString : Int → List Char
  toInt64  : List Char → Option Int

/-- **An asset symbol**, byte by byte: the decimals and the seven characters behind them. -/
structure AssetSymbol where
  decimals : Nat
  text     : List Char
deriving DecidableEq

@[ext]
structure Asset where
  amount : Int
  symbol : AssetSymbol
deriving DecidableEq

namespace Asset

def decimals (a : Asset) : Option Nat := if a.symbol.decimals < 15 then some a.symbol.decimals else none

/-- `set_decimals`, whose argument is one byte. -/
def setDecimals (d : Nat) : Option Nat := if d % 256 < 15 then some (d % 256) else none

/-- The characters up to the first zero byte; the last byte has to be one. -/
def symbolName (a : Asset) : Option (List Char) :=
  if a.symbol.text.getD 6 '\x00' = '\x00' then some (a.symbol.text.takeWhile (fun c => decide (c ≠ '\x00')))
  else none

/-- The table of the powers of ten. -/
def precision (a : Asset) : Option Int := a.decimals.map (fun d => 10 ^ d)

def toString (fc : Fc) (a : Asset) : Option (List Char) := do
  let prec ← a.precision
  let result := fc.toString (a.amount.tdiv prec)
  let fract := if 1 < prec then '.' :: (fc.toString (prec + a.amount.tmod prec)).drop 1 else []
  let name ← a.symbolName
  return result ++ fract ++ ' ' :: name

/-- The amount and the decimals in front of the space at `spacePos`. -/
def readAmount (fc : Fc) (s : List Char) (spacePos : Nat) : Option (Int × Nat) :=
  match find '.' s with
  | some dotPos => do
      if dotPos < spacePos then
        let intpart := s.take dotPos
        let fractpart := '1' :: (s.drop (dotPos + 1)).take (spacePos - dotPos - 1)
        let d ← setDecimals (fractpart.length - 1)
        let i ← fc.toInt64 intpart
        let f ← fc.toInt64 fractpart
        return (wrap64 (wrap64 (wrap64 (i * 10 ^ d) + f) - 10 ^ d), d)
      else none
  | none        => (fc.toInt64 (s.take spacePos)).map (fun i => (i, 0))

def fromString (fc : Fc) (text : List Char) : Option Asset := do
  let s := fc.trim text
  let spacePos ← find ' ' s
  let r ← readAmount fc s spacePos
  let name := s.drop (spacePos + 1)
  if name.length ≤ 6 then
    return { amount := r.1, symbol := { decimals := r.2, text := name ++ List.replicate (7 - name.length) '\x00' } }
  else none

end Asset

/-! ## Readings -/

/-- A sign in front of a number, or none. -/
inductive Sign where
  | none | plus | minus
deriving DecidableEq

namespace Sign

def text : Sign → List Char
  | none  => []
  | plus  => ['+']
  | minus => ['-']

def apply (s : Sign) (n : Nat) : Int := if s = minus then -n else n

end Sign

/-- **A number and a name**: sign, digits, the digits behind a point if there is one, and the name. -/
structure Reading where
  sign : Sign
  int  : List Char
  frac : Option (List Char)
  name : List Char

namespace Reading

variable {r r' : Reading}

def fraction (r : Reading) : List Char := r.frac.getD []

def point (r : Reading) : List Char :=
  match r.frac with
  | none   => []
  | some f => '.' :: f

def text (r : Reading) : List Char := (r.sign.text ++ r.int ++ r.point) ++ ' ' :: r.name

/-- The number of decimals, and the number in units of the last one. -/
def decimals (r : Reading) : Nat := r.fraction.length

def units (r : Reading) : Int := r.sign.apply (value (r.int ++ r.fraction))

structure Proper (r : Reading) : Prop where
  some_digit : r.int ≠ []
  int        : Digits r.int
  fraction   : Digits r.fraction

/-- The bounds of the parser. -/
structure Accepted (r : Reading) : Prop where
  whole    : InInt64 (r.sign.apply (value r.int))
  decimals : r.decimals < 15
  name     : r.name.length ≤ 6
  -- without a point in the number, the first point is looked for behind it
  noPoint  : r.frac = none → '.' ∉ r.name

/-- What the parser makes of an accepted reading. -/
def parsed (r : Reading) : Asset where
  amount := wrap64 (r.sign.apply (value r.int) * 10 ^ r.decimals + value r.fraction)
  symbol := { decimals := r.decimals, text := r.name ++ List.replicate (7 - r.name.length) '\x00' }

/-- **The reading is exact**: its sign covers nothing but zeros behind the point, and its number fits. -/
def Exact (r : Reading) : Prop := (r.sign = .minus → value r.fraction = 0) ∧ InInt64 r.units

end Reading

/-- The characters `trim` takes away. -/
def isSpace (c : Char) : Bool := decide (c ∈ [' ', '\t', '\n', '\x0b', '\x0c', '\r'])

/-- What these functions of `fc` are documented to do. -/
structure Fc.Documented (fc : Fc) : Prop where
  /-- Only whitespace is taken away, at the ends. -/
  trim      : ∀ s, ∃ front back, s = front ++ fc.trim s ++ back ∧ ∀ c ∈ front ++ back, isSpace c = true
  ofNat     : ∀ n : Nat, fc.toString n = Nat.toDigits 10 n
  ofNeg     : ∀ n : Nat, 0 < n → fc.toString (-n) = '-' :: Nat.toDigits 10 n
  /-- `lexical_cast`: a sign, digits, nothing else, within the range of the type. -/
  toInt64   : ∀ s v, fc.toInt64 s = some v ↔
    ∃ (sign : Sign) (ds : List Char), s = sign.text ++ ds ∧ ds ≠ [] ∧ Digits ds ∧ v = sign.apply (value ds) ∧ InInt64 v

/-! ## A text has one reading -/

theorem Sign.not_mem {c : Char} (hp : c ≠ '+') (hm : c ≠ '-') (s : Sign) : c ∉ s.text := by
  cases s <;> simp [Sign.text, hp, hm]

/-- The sign is no digit, so it is told from the digits. -/
theorem Sign.text_injective {s s' : Sign} {l l' : List Char} (hl : Digits l) (hl' : Digits l')
    (h : s.text ++ l = s'.text ++ l') : s = s' ∧ l = l' := by
  have hp : ∀ {m : List Char}, Digits m → '+' ∉ m := fun hm => hm.not_mem (by decide)
  have hm : ∀ {m : List Char}, Digits m → '-' ∉ m := fun hm => hm.not_mem (by decide)
  cases s <;> cases s' <;> simp only [Sign.text, List.nil_append, List.cons_append, List.cons.injEq, true_and] at h
  case none.none | plus.plus | minus.minus => exact ⟨rfl, h⟩
  case none.plus => exact absurd List.mem_cons_self (h ▸ hp hl)
  case none.minus => exact absurd List.mem_cons_self (h ▸ hm hl)
  case plus.none => exact absurd List.mem_cons_self (h ▸ hp hl')
  case minus.none => exact absurd List.mem_cons_self (h ▸ hm hl')
  case plus.minus => exact absurd h.1 (by decide)
  case minus.plus => exact absurd h.1 (by decide)

namespace Reading

variable {r r' : Reading}

theorem head_noPoint (h : r.Proper) : '.' ∉ r.sign.text ++ r.int := by
  rw [List.mem_append, not_or]
  exact ⟨Sign.not_mem (by decide) (by decide) r.sign, h.int.not_mem (by decide)⟩

theorem word_noSpace (h : r.Proper) : ' ' ∉ r.sign.text ++ r.int ++ r.point := by
  rw [List.mem_append, List.mem_append, not_or, not_or]
  refine ⟨⟨Sign.not_mem (by decide) (by decide) r.sign, h.int.not_mem (by decide)⟩, ?_⟩
  have hf := h.fraction.not_mem (c := ' ') (by decide)
  unfold point
  unfold fraction at hf
  cases hr : r.frac with
  | none => simp
  | some f =>
      rw [hr] at hf
      simpa using hf

/-- **A text has at most one reading.** -/
theorem text_injective (h : r.Proper) (h' : r'.Proper) (he : r.text = r'.text) : r = r' := by
  obtain ⟨hword, hname⟩ := append_first (word_noSpace h) (word_noSpace h') he
  have hn := head_noPoint h
  have hn' := head_noPoint h'
  -- both have a point or none has one
  have hcut : r.sign.text ++ r.int = r'.sign.text ++ r'.int ∧ r.frac = r'.frac := by
    unfold point at hword
    cases hf : r.frac with
    | none =>
        cases hf' : r'.frac with
        | none => rw [hf, hf'] at hword; exact ⟨by simpa using hword, rfl⟩
        | some f' =>
            rw [hf, hf'] at hword
            simp only [List.append_nil] at hword
            exact absurd (hword ▸ List.mem_append_right _ List.mem_cons_self) hn
    | some f =>
        cases hf' : r'.frac with
        | none =>
            rw [hf, hf'] at hword
            simp only [List.append_nil] at hword
            exact absurd (hword ▸ List.mem_append_right _ List.mem_cons_self) hn'
        | some f' =>
            rw [hf, hf'] at hword
            obtain ⟨h₁, h₂⟩ := append_first hn hn' hword
            exact ⟨h₁, congrArg some h₂⟩
  obtain ⟨hsign, hint⟩ := Sign.text_injective h.int h'.int hcut.1
  have hfrac := hcut.2
  cases r
  cases r'
  simp_all

/-- The text after `trim` is this reading. -/
def Reads (fc : Fc) (s : List Char) (r : Reading) : Prop := fc.trim s = r.text ∧ r.Proper

end Reading

/-! ## What is accepted -/

section Parsing

open Reading (Reads)

variable {fc : Fc} (hfc : fc.Documented) {s : List Char} {r : Reading} {a : Asset}

include hfc

theorem toInt64_sign {sign : Sign} {ds : List Char} (hne : ds ≠ []) (hds : Digits ds)
    (h : InInt64 (sign.apply (value ds))) : fc.toInt64 (sign.text ++ ds) = some (sign.apply (value ds)) :=
  (hfc.toInt64 _ _).mpr ⟨sign, ds, rfl, hne, hds, rfl, h⟩

/-- The digits behind the point are read with a one in front. -/
theorem toInt64_fraction {f : List Char} (hf : Digits f) (h : f.length < 15) :
    fc.toInt64 ('1' :: f) = some ((10 ^ f.length + value f : Nat) : Int) := by
  have hds : Digits ('1' :: f) := by
    intro c hc
    rcases List.mem_cons.mp hc with rfl | hc
    · rfl
    · exact hf c hc
  have hval : value ('1' :: f) = 10 ^ f.length + value f := by
    rw [value_cons]
    show 10 ^ f.length * 1 + value f = _
    rw [Nat.mul_one]
  have hlt : 10 ^ f.length ≤ 10 ^ 14 := Nat.pow_le_pow_right (by decide) (by omega)
  have hv := hf.value_lt
  have happly : Sign.none.apply (value ('1' :: f)) = ((10 ^ f.length + value f : Nat) : Int) := by
    rw [← hval]
    rfl
  have hin : InInt64 (Sign.none.apply (value ('1' :: f))) := by
    rw [happly]
    unfold InInt64
    omega
  have hread := toInt64_sign hfc (by simp) hds hin
  rw [happly] at hread
  exact hread

/-- Whatever is read behind the point are fewer than nineteen digits. -/
theorem toInt64_fraction_some {f : List Char} {v : Int} (h : fc.toInt64 ('1' :: f) = some v) :
    Digits f ∧ f.length < 19 := by
  obtain ⟨sign, ds, hs, -, hds, rfl, hin⟩ := (hfc.toInt64 _ _).mp h
  have hnone : sign = .none ∧ ds = '1' :: f := by
    cases sign <;> simp only [Sign.text, List.nil_append, List.cons_append, List.cons.injEq] at hs
    case none => exact ⟨rfl, hs.symm⟩
    case plus => exact absurd hs.1 (by decide)
    case minus => exact absurd hs.1 (by decide)
  obtain ⟨rfl, rfl⟩ := hnone
  refine ⟨fun c hc => hds c (List.mem_cons_of_mem _ hc), ?_⟩
  by_contra hlen
  have hpow : 10 ^ 19 ≤ 10 ^ f.length := Nat.pow_le_pow_right (by decide) (by omega)
  have hval : value ('1' :: f) = 10 ^ f.length * 1 + value f := value_cons '1' f
  have hlt := hin.2
  unfold Sign.apply at hlt
  rw [if_neg (by decide), hval] at hlt
  norm_cast at hlt
  omega

end Parsing

section Amounts

variable {fc : Fc} {i f name : List Char}

/-- A number with a point. -/
theorem readAmount_point (hi : '.' ∉ i) :
    Asset.readAmount fc (i ++ '.' :: (f ++ ' ' :: name)) (i ++ '.' :: f).length =
      (Asset.setDecimals f.length).bind (fun d => (fc.toInt64 i).bind (fun v =>
        (fc.toInt64 ('1' :: f)).map (fun w => (wrap64 (wrap64 (wrap64 (v * 10 ^ d) + w) - 10 ^ d), d)))) := by
  have hlen : (i ++ '.' :: f).length - i.length - 1 = f.length := by
    simp only [List.length_append, List.length_cons]
    omega
  have hfract : ((i ++ '.' :: (f ++ ' ' :: name)).drop (i.length + 1)).take ((i ++ '.' :: f).length - i.length - 1)
      = f := by
    rw [hlen, List.drop_append, List.drop_of_length_le (Nat.le_succ _)]
    simp
  unfold Asset.readAmount
  rw [find_first hi]
  simp only [hfract, List.take_left', List.length_cons, Nat.add_sub_cancel, Option.bind_eq_bind, Option.pure_def]
  rw [if_pos (by simp)]
  cases Asset.setDecimals f.length with
  | none => rfl
  | some d =>
      cases fc.toInt64 i with
      | none => rfl
      | some v => cases fc.toInt64 ('1' :: f) <;> rfl

/-- A number without a point. -/
theorem readAmount_plain (hi : '.' ∉ i) (hname : '.' ∉ name) :
    Asset.readAmount fc (i ++ ' ' :: name) i.length = (fc.toInt64 i).map (fun v => (v, 0)) := by
  have hnone : find '.' (i ++ ' ' :: name) = none := by
    rw [find_eq_none]
    simp [hi, hname]
  unfold Asset.readAmount
  rw [hnone]
  simp

/-- A point in the name only is taken for one behind the space. -/
theorem readAmount_late (hi : '.' ∉ i) (hname : '.' ∈ name) :
    Asset.readAmount fc (i ++ ' ' :: name) i.length = none := by
  unfold Asset.readAmount
  rw [find_append hi]
  cases hfind : find '.' (' ' :: name) with
  | none => exact absurd (List.mem_cons_of_mem _ hname) (find_eq_none.mp hfind)
  | some k =>
      simp only [Option.map_some]
      rw [if_neg (by omega)]

/-- The text in front of the first space and the text behind it. -/
theorem fromString_cut {s w : List Char} (htrim : fc.trim s = w ++ ' ' :: name) (hw : ' ' ∉ w) :
    Asset.fromString fc s = (Asset.readAmount fc (w ++ ' ' :: name) w.length).bind (fun r =>
      if name.length ≤ 6 then
        some { amount := r.1, symbol := { decimals := r.2, text := name ++ List.replicate (7 - name.length) '\x00' } }
      else none) := by
  have hname : (w ++ ' ' :: name).drop (w.length + 1) = name := by
    rw [List.drop_append]
    simp
  unfold Asset.fromString
  simp only [htrim, find_first hw, Option.bind_eq_bind, Option.bind_some, hname, Option.pure_def]

end Amounts

section Parsing

open Reading (Reads)

variable {fc : Fc} (hfc : fc.Documented) {s : List Char} {r : Reading} {a : Asset}

include hfc

/-- **Every reading within the bounds is accepted.** -/
theorem fromString_accepted (h : Reads fc s r) (ha : r.Accepted) : Asset.fromString fc s = some r.parsed := by
  obtain ⟨sign, int, frac, name⟩ := r
  obtain ⟨htrim, hp⟩ := h
  have hwhole := toInt64_sign hfc hp.some_digit hp.int ha.whole
  have hpoint := Reading.head_noPoint hp
  rw [fromString_cut htrim (Reading.word_noSpace hp)]
  cases frac with
  | none =>
      simp only [Reading.point, List.append_nil] at *
      rw [readAmount_plain hpoint (ha.noPoint rfl), hwhole]
      simp only [Option.map_some, Option.bind_some, if_pos ha.name]
      have hself : wrap64 (sign.apply (value int) * 10 ^ 0 + ((value [] : Nat) : Int)) = sign.apply (value int) := by
        have hzero : sign.apply (value int) * 10 ^ 0 + ((value [] : Nat) : Int) = sign.apply (value int) := by
          simp [value]
        rw [hzero, wrap64_eq_self ha.whole]
      simp only [Reading.parsed, Reading.decimals, Reading.fraction, Option.getD_none, List.length_nil, hself]
  | some f =>
      have hdec : f.length < 15 := ha.decimals
      have hset : Asset.setDecimals f.length = some f.length := by
        unfold Asset.setDecimals
        rw [Nat.mod_eq_of_lt (by omega), if_pos hdec]
      have hcut : sign.text ++ int ++ '.' :: f ++ ' ' :: name = (sign.text ++ int) ++ '.' :: (f ++ ' ' :: name) := by
        simp
      have hfract : fc.toInt64 ('1' :: f) = _ := toInt64_fraction hfc hp.fraction hdec
      simp only [Reading.point] at *
      rw [hcut, readAmount_point hpoint, hset, hwhole, hfract]
      simp only [Option.map_some, Option.bind_some, if_pos ha.name]
      -- the power of ten that was added with the fraction is taken off again
      have hwrap : ∀ x y z : Int, wrap64 (wrap64 (wrap64 x + (y + z)) - y) = wrap64 (x + z) := by
        intro x y z
        rw [wrap64_add, wrap64_sub]
        congr 1
        omega
      have hamount := hwrap (sign.apply (value int) * 10 ^ f.length) (10 ^ f.length) (value f)
      push_cast
      rw [hamount]
      rfl

/-- **Only readings within the bounds are accepted.** -/
theorem fromString_some (h : Asset.fromString fc s = some a) :
    ∃ r : Reading, Reads fc s r ∧ r.Accepted ∧ a = r.parsed := by
  -- an accepted reading is parsed in one way
  have hparsed : ∀ r : Reading, Reads fc s r → r.Accepted → ∃ r : Reading, Reads fc s r ∧ r.Accepted ∧ a = r.parsed := by
    intro r hr ha
    refine ⟨r, hr, ha, ?_⟩
    rw [fromString_accepted hfc hr ha] at h
    exact (Option.some.inj h).symm
  cases hspace : find ' ' (fc.trim s) with
  | none => exact absurd h (by simp [Asset.fromString, hspace])
  | some k =>
      obtain ⟨w, name, htrim, hw, -⟩ := find_eq_some hspace
      rw [fromString_cut htrim hw] at h
      obtain ⟨x, hread, h⟩ := Option.bind_eq_some_iff.mp h
      have hname : name.length ≤ 6 := by
        by_contra hlong
        rw [if_neg hlong] at h
        exact absurd h (by simp)
      -- the sign and the digits are those of the integer part
      by_cases hdot : '.' ∈ w
      · obtain ⟨k', hk'⟩ : ∃ k', find '.' w = some k' := by
          cases hf : find '.' w with
          | none => exact absurd hdot (find_eq_none.mp hf)
          | some k' => exact ⟨k', rfl⟩
        obtain ⟨i, f, rfl, hi, -⟩ := find_eq_some hk'
        rw [List.append_assoc, List.cons_append, readAmount_point hi] at hread
        obtain ⟨d, hset, hread⟩ := Option.bind_eq_some_iff.mp hread
        obtain ⟨v, hint, hread⟩ := Option.bind_eq_some_iff.mp hread
        obtain ⟨u, hfract, -⟩ := Option.map_eq_some_iff.mp hread
        obtain ⟨sign, ds, rfl, hne, hds, rfl, hin⟩ := (hfc.toInt64 _ _).mp hint
        obtain ⟨hf, hlen⟩ := toInt64_fraction_some hfc hfract
        have hdec : f.length < 15 := by
          unfold Asset.setDecimals at hset
          rw [Nat.mod_eq_of_lt (by omega)] at hset
          by_contra hlong
          rw [if_neg hlong] at hset
          exact absurd hset (by simp)
        exact hparsed ⟨sign, ds, some f, name⟩ ⟨htrim, hne, hds, hf⟩
          ⟨hin, hdec, hname, fun hc => absurd hc (by simp)⟩
      · by_cases hlate : '.' ∈ name
        · rw [readAmount_late hdot hlate] at hread
          exact absurd hread (by simp)
        · rw [readAmount_plain hdot hlate] at hread
          obtain ⟨v, hint, -⟩ := Option.map_eq_some_iff.mp hread
          obtain ⟨sign, ds, rfl, hne, hds, rfl, hin⟩ := (hfc.toInt64 _ _).mp hint
          refine hparsed ⟨sign, ds, none, name⟩ ⟨?_, hne, hds, ?_⟩ ⟨hin, Nat.zero_lt_succ _, hname, fun _ => hlate⟩
          · simpa [Reading.text, Reading.point] using htrim
          · intro c hc
            exact absurd hc (by simp [Reading.fraction])

end Parsing

/-! ## The sign and the range -/

namespace Reading

variable {r : Reading}

/-- **When the amount is the number that is written.** -/
theorem parsed_amount_iff (h : r.Proper) (ha : r.Accepted) : r.parsed.amount = r.units ↔ r.Exact := by
  have hval : value (r.int ++ r.fraction) = 10 ^ r.decimals * value r.int + value r.fraction := value_append _ _
  have hlt : value r.fraction < 10 ^ 14 :=
    Nat.lt_of_lt_of_le h.fraction.value_lt (Nat.pow_le_pow_right (by decide) (Nat.le_of_lt_succ ha.decimals))
  -- the code adds the fraction on either side of zero
  have hsum : r.sign.apply (value r.int) * 10 ^ r.decimals + value r.fraction =
      r.units + (if r.sign = .minus then 2 * (value r.fraction : Int) else 0) := by
    unfold units Sign.apply
    rw [hval]
    push_cast
    split
    · rw [Int.neg_mul, Int.mul_comm (value r.int : Int)]
      omega
    · rw [Int.mul_comm (value r.int : Int)]
      omega
  show wrap64 (r.sign.apply (value r.int) * 10 ^ r.decimals + value r.fraction) = r.units ↔ _
  rw [hsum]
  unfold Exact
  constructor
  · intro hw
    refine ⟨?_, hw ▸ wrap64_inInt64 _⟩
    intro hs
    rw [if_pos hs] at hw
    obtain ⟨k, hk⟩ := wrap64_dvd hw
    omega
  · rintro ⟨hsign, hin⟩
    have hzero : (if r.sign = .minus then 2 * (value r.fraction : Int) else 0) = 0 := by
      split
      · next hs => rw [hsign hs]; rfl
      · rfl
    rw [hzero, Int.add_zero, wrap64_eq_self hin]

end Reading

/-! ## The round trip -/

namespace Asset

variable {fc : Fc} (hfc : fc.Documented) {a : Asset}

/-- **A valid asset**: up to fourteen decimals, and a name of one to six characters that are no zero bytes, no
    spaces and no points. -/
structure Valid (a : Asset) : Prop where
  amount   : InInt64 a.amount
  decimals : a.symbol.decimals < 15
  named    : ∃ name : List Char, a.symbol.text = name ++ List.replicate (7 - name.length) '\x00' ∧ name ≠ [] ∧
    name.length ≤ 6 ∧ ∀ c ∈ name, c ≠ '\x00' ∧ c ≠ '.' ∧ isSpace c = false

theorem symbolName_eq {name : List Char} (ht : a.symbol.text = name ++ List.replicate (7 - name.length) '\x00')
    (hlen : name.length ≤ 6) (hname : ∀ c ∈ name, c ≠ '\x00') : a.symbolName = some name := by
  have hlast : a.symbol.text.getD 6 '\x00' = '\x00' := by
    rw [ht, List.getD_eq_getElem?_getD, List.getElem?_append_right hlen]
    cases hget : (List.replicate (7 - name.length) '\x00')[6 - name.length]? with
    | none => rfl
    | some c => exact List.eq_of_mem_replicate (List.mem_of_getElem? hget)
  unfold symbolName
  rw [if_pos hlast, ht, List.takeWhile_append_of_pos (by simpa using hname)]
  obtain ⟨k, hk⟩ : ∃ k, 7 - name.length = k + 1 := ⟨6 - name.length, by omega⟩
  simp [hk, List.replicate_succ]

/-- The number `fc::to_string` prints, as a sign and digits. -/
def printed (x : Int) : Sign := if x < 0 then .minus else .none

include hfc in
theorem fc_toString (x : Int) :
    fc.toString x = (printed x).text ++ Nat.toDigits 10 x.natAbs := by
  rw [printed]
  rcases Int.lt_or_le x 0 with hneg | hpos
  · rw [if_pos hneg]
    have h := hfc.ofNeg x.natAbs (by omega)
    rw [show -((x.natAbs : Nat) : Int) = x by omega] at h
    exact h
  · rw [if_neg (by omega)]
    have h := hfc.ofNat x.natAbs
    rw [show ((x.natAbs : Nat) : Int) = x by omega] at h
    exact h

include hfc in
/-- Nothing is trimmed off a text that neither starts nor ends with a space. -/
theorem trim_eq {s : List Char} {c d : Char} (hhead : s.head? = some c) (hlast : s.getLast? = some d)
    (hc : isSpace c = false) (hd : isSpace d = false) : fc.trim s = s := by
  obtain ⟨front, back, hs, hspace⟩ := hfc.trim s
  have hfront : front = [] := by
    cases front with
    | nil => rfl
    | cons x front =>
        rw [hs] at hhead
        obtain rfl : x = c := by simpa using hhead
        rw [hspace x (by simp)] at hc
        exact absurd hc (by decide)
  have hback : back = [] := by
    rcases List.eq_nil_or_concat back with rfl | ⟨back', x, rfl⟩
    · rfl
    · rw [hs] at hlast
      obtain rfl : x = d := by simpa using hlast
      rw [hspace x (by simp)] at hd
      exact absurd hd (by decide)
  rw [hfront, hback] at hs
  simpa using hs.symm

/-- What `to_string` writes. -/
def written (a : Asset) (name : List Char) : Reading where
  sign := printed (a.amount.tdiv (10 ^ a.symbol.decimals))
  int  := Nat.toDigits 10 (a.amount.tdiv (10 ^ a.symbol.decimals)).natAbs
  frac :=
    if a.symbol.decimals = 0 then none
    else some ((Nat.toDigits 10 (10 ^ a.symbol.decimals + a.amount.tmod (10 ^ a.symbol.decimals)).natAbs).drop 1)
  name := name

theorem written_proper (name : List Char) : (a.written name).Proper where
  some_digit := Nat.toDigits_ne_nil
  int := digits_toDigits _
  fraction := by
    intro c hc
    unfold Reading.fraction written at hc
    split at hc
    · exact absurd hc (by simp)
    · exact digits_toDigits _ c (List.mem_of_mem_drop hc)

include hfc in
theorem toString_written {name : List Char} (hd : a.symbol.decimals < 15) (hname : a.symbolName = some name) :
    a.toString fc = some (a.written name).text := by
  have hprec : a.precision = some (10 ^ a.symbol.decimals) := by
    unfold precision decimals
    rw [if_pos hd]
    rfl
  have hpos : (0 : Int) < 10 ^ a.symbol.decimals := Int.pow_pos (by decide)
  have hfract : 0 ≤ 10 ^ a.symbol.decimals + a.amount.tmod (10 ^ a.symbol.decimals) := by
    have := Int.lt_tmod_of_pos a.amount hpos
    omega
  have hnone : printed (10 ^ a.symbol.decimals + a.amount.tmod (10 ^ a.symbol.decimals)) = .none :=
    if_neg (by omega)
  unfold toString
  rw [hprec, hname]
  simp only [Option.bind_eq_bind, Option.bind_some, Option.pure_def, fc_toString hfc, hnone]
  unfold Reading.text Reading.point written
  by_cases hzero : a.symbol.decimals = 0
  · simp [hzero]
  · have hgt : (1 : Int) < 10 ^ a.symbol.decimals := by
      obtain ⟨k, hk⟩ := Nat.exists_eq_succ_of_ne_zero hzero
      have := Int.pow_pos (n := 10) (m := k) (by decide)
      rw [hk, Int.pow_succ]
      omega
    rw [if_pos hgt, if_neg hzero]
    simp [Sign.text]

theorem tmod_nonpos {x P : Int} (h : x ≤ 0) : x.tmod P ≤ 0 := by
  have hneg := Int.tmod_nonneg P (by omega : 0 ≤ -x)
  rw [Int.neg_tmod] at hneg
  omega

/-- The remainder is negative exactly for a negative amount with something behind the point. -/
theorem tmod_nonneg_iff {x P : Int} : 0 ≤ x.tmod P ↔ 0 ≤ x ∨ P ∣ x := by
  constructor
  · intro h
    by_contra hc
    rw [not_or] at hc
    have hle : x.tmod P ≤ 0 := tmod_nonpos (by omega)
    exact hc.2 (Int.dvd_of_tmod_eq_zero (by omega))
  · rintro (h | h)
    · exact Int.tmod_nonneg P h
    · exact Int.le_of_eq (Int.tmod_eq_zero_of_dvd h).symm

/-- **A remainder that is not negative is written in full.** -/
theorem written_full (name : List Char) (hr : 0 ≤ a.amount.tmod (10 ^ a.symbol.decimals)) :
    (a.written name).decimals = a.symbol.decimals ∧
      (value (a.written name).fraction : Int) = a.amount.tmod (10 ^ a.symbol.decimals) := by
  have hpos : (0 : Int) < 10 ^ a.symbol.decimals := Int.pow_pos (by decide)
  have hlt : a.amount.tmod (10 ^ a.symbol.decimals) < 10 ^ a.symbol.decimals := Int.tmod_lt_of_pos _ hpos
  obtain ⟨f, hf⟩ := Int.eq_ofNat_of_zero_le hr
  unfold Reading.decimals Reading.fraction written
  rw [hf]
  by_cases hzero : a.symbol.decimals = 0
  · rw [hzero] at hlt hf ⊢
    simp only [if_pos]
    refine ⟨rfl, ?_⟩
    show ((0 : Nat) : Int) = f
    omega
  · rw [if_neg hzero]
    have hfP : f < 10 ^ a.symbol.decimals := by
      rw [hf] at hlt
      exact_mod_cast hlt
    obtain ⟨l, hl, hlen, hdig, hval⟩ := toDigits_pow_add hfP
    have hnat : (10 ^ a.symbol.decimals + (f : Int)).natAbs = 10 ^ a.symbol.decimals + f := by
      have : (10 ^ a.symbol.decimals + (f : Int)) = ((10 ^ a.symbol.decimals + f : Nat) : Int) := by push_cast; rfl
      rw [this]
      rfl
    simp only [hnat, Option.getD_some]
    rw [hl]
    exact ⟨hlen, by rw [List.drop_one, List.tail_cons, hval]⟩

/-- **A negative remainder loses digits.** -/
theorem written_short (name : List Char) (hr : a.amount.tmod (10 ^ a.symbol.decimals) < 0) :
    (a.written name).decimals < a.symbol.decimals := by
  have hpos : (0 : Int) < 10 ^ a.symbol.decimals := Int.pow_pos (by decide)
  have hlt := Int.lt_tmod_of_pos a.amount hpos
  have hzero : a.symbol.decimals ≠ 0 := by
    intro hz
    rw [hz] at hr hlt
    omega
  have hle : (10 ^ a.symbol.decimals + a.amount.tmod (10 ^ a.symbol.decimals)).natAbs < 10 ^ a.symbol.decimals := by
    have hcast : (10 : Int) ^ a.symbol.decimals = ((10 ^ a.symbol.decimals : Nat) : Int) := by push_cast; rfl
    omega
  have hlen := (Nat.length_toDigits_le_iff (by decide : 1 < 10) (Nat.pos_of_ne_zero hzero)).mpr hle
  unfold Reading.decimals Reading.fraction written
  rw [if_neg hzero]
  simp only [Option.getD_some, List.length_drop]
  omega

/-- Below zero nothing is left over. -/
theorem tmod_nonpos_of_tdiv {x P : Int} (hP : 0 < P) (h : x.tdiv P < 0) : x.tmod P ≤ 0 := by
  have hx : x < 0 := by
    by_contra hc
    exact absurd (Int.tdiv_nonneg (by omega) (Int.le_of_lt hP)) (not_le.mpr h)
  exact tmod_nonpos (by omega)

/-- What is written in full is worth the amount. -/
theorem written_units (name : List Char) (hr : 0 ≤ a.amount.tmod (10 ^ a.symbol.decimals)) :
    (a.written name).units = a.amount := by
  obtain ⟨hdec, hfract⟩ := written_full name hr
  have hsum := Int.mul_tdiv_add_tmod a.amount (10 ^ a.symbol.decimals)
  have hval : value ((a.written name).int ++ (a.written name).fraction) =
      10 ^ a.symbol.decimals * (a.amount.tdiv (10 ^ a.symbol.decimals)).natAbs + value (a.written name).fraction := by
    rw [value_append]
    show 10 ^ (a.written name).decimals * value (Nat.toDigits 10 _) + _ = _
    rw [hdec, value_toDigits]
  have hpos : (0 : Int) < 10 ^ a.symbol.decimals := Int.pow_pos (by decide)
  have hcast : ((10 ^ a.symbol.decimals * (a.amount.tdiv (10 ^ a.symbol.decimals)).natAbs : Nat) : Int) =
      10 ^ a.symbol.decimals * |a.amount.tdiv (10 ^ a.symbol.decimals)| := by push_cast; rfl
  show Sign.apply (printed (a.amount.tdiv (10 ^ a.symbol.decimals))) (value _) = a.amount
  unfold Sign.apply printed
  rw [hval]
  rcases Int.lt_or_le (a.amount.tdiv (10 ^ a.symbol.decimals)) 0 with hneg | hnonneg
  · -- below zero there is nothing behind the point
    have hzero := tmod_nonpos_of_tdiv hpos hneg
    rw [abs_of_neg hneg, Int.mul_neg] at hcast
    rw [if_pos hneg, if_pos rfl]
    omega
  · rw [abs_of_nonneg hnonneg] at hcast
    rw [if_neg (Int.not_lt.mpr hnonneg), if_neg (by decide)]
    omega

/-- A minus sign is written in front of a whole number only. -/
theorem written_sign (name : List Char) (hr : 0 ≤ a.amount.tmod (10 ^ a.symbol.decimals)) :
    (a.written name).sign = .minus → value (a.written name).fraction = 0 := by
  intro hs
  have hpos : (0 : Int) < 10 ^ a.symbol.decimals := Int.pow_pos (by decide)
  have hneg : a.amount.tdiv (10 ^ a.symbol.decimals) < 0 := by
    by_contra hc
    have hnone : (a.written name).sign = .none := if_neg hc
    rw [hnone] at hs
    exact absurd hs (by decide)
  have hzero := tmod_nonpos_of_tdiv hpos hneg
  have hfract := (written_full name hr).2
  omega

/-- The whole part of a 64-bit amount is one. -/
theorem written_whole (h : a.Valid) (name : List Char) :
    InInt64 ((a.written name).sign.apply (value (a.written name).int)) := by
  have hpos : (0 : Int) < 10 ^ a.symbol.decimals := Int.pow_pos (by decide)
  have hq : (a.written name).sign.apply (value (a.written name).int) = a.amount.tdiv (10 ^ a.symbol.decimals) := by
    show Sign.apply (printed (a.amount.tdiv (10 ^ a.symbol.decimals))) (value (Nat.toDigits 10 _)) = _
    rw [value_toDigits]
    unfold Sign.apply printed
    by_cases hneg : a.amount.tdiv (10 ^ a.symbol.decimals) < 0
    · rw [if_pos hneg, if_pos rfl]
      omega
    · rw [if_neg hneg, if_neg (by decide)]
      omega
  have habs := Int.natAbs_tdiv_le_natAbs a.amount (10 ^ a.symbol.decimals)
  have hup : 0 ≤ a.amount → 0 ≤ a.amount.tdiv (10 ^ a.symbol.decimals) :=
    fun hx => Int.tdiv_nonneg hx (Int.le_of_lt hpos)
  have hdown : a.amount ≤ 0 → a.amount.tdiv (10 ^ a.symbol.decimals) ≤ 0 := by
    intro hx
    have hneg := Int.tdiv_nonneg (by omega : 0 ≤ -a.amount) (Int.le_of_lt hpos)
    rw [Int.neg_tdiv] at hneg
    omega
  have hamount := h.amount
  unfold InInt64 at hamount ⊢
  rw [hq]
  omega

theorem isSpace_digit {c : Char} (h : c.isDigit = true) : isSpace c = false := by
  refine decide_eq_false ?_
  intro hc
  simp only [List.mem_cons, List.not_mem_nil, or_false] at hc
  rcases hc with rfl | rfl | rfl | rfl | rfl | rfl
  all_goals exact absurd h (by decide)

/-- A number starts with a sign or a digit. -/
theorem written_head (name : List Char) : ∃ c l, (a.written name).text = c :: l ∧ isSpace c = false := by
  obtain ⟨d, ds, hds⟩ := List.exists_cons_of_ne_nil (written_proper (a := a) name).some_digit
  have hd : isSpace d = false := isSpace_digit ((written_proper (a := a) name).int d (by rw [hds]; simp))
  unfold Reading.text
  rw [hds]
  cases (a.written name).sign
  case none => exact ⟨d, _, rfl, hd⟩
  case plus => exact ⟨'+', _, rfl, by decide⟩
  case minus => exact ⟨'-', _, rfl, by decide⟩

include hfc in
/-- A valid asset prints as what is written of it, and nothing is trimmed off that. -/
theorem toString_reads (h : a.Valid) : ∃ name, a.symbolName = some name ∧ a.symbol.text = name ++
    List.replicate (7 - name.length) '\x00' ∧ name.length ≤ 6 ∧ '.' ∉ name ∧
    a.toString fc = some (a.written name).text ∧ (a.written name).Reads fc (a.written name).text := by
  obtain ⟨name, htext, hne, hlen, hname⟩ := h.named
  have hsym := symbolName_eq htext hlen (fun c hc => (hname c hc).1)
  refine ⟨name, hsym, htext, hlen, fun hc => (hname '.' hc).2.1 rfl, toString_written hfc h.decimals hsym, ?_,
    written_proper name⟩
  obtain ⟨c, l, hhead, hc⟩ := written_head (a := a) name
  have hlast : (a.written name).text.getLast? = some (name.getLast hne) := by
    unfold Reading.text
    show (_ ++ ' ' :: name).getLast? = _
    rw [List.getLast?_append, List.getLast?_cons, List.getLast?_eq_some_getLast hne]
    rfl
  exact trim_eq hfc (by rw [hhead]; rfl) hlast hc (hname _ (List.getLast_mem hne)).2.2

include hfc in
/-- **The text of an asset is read back as that asset exactly when no digits were lost.** -/
theorem roundTrip_iff (h : a.Valid) :
    (a.toString fc).bind (fromString fc) = some a ↔ 0 ≤ a.amount ∨ 10 ^ a.symbol.decimals ∣ a.amount := by
  obtain ⟨name, -, htext, hlen, hdot, hprint, hreads⟩ := toString_reads hfc h
  rw [hprint, Option.bind_some, ← tmod_nonneg_iff]
  constructor
  · intro hback
    by_contra hneg
    -- fewer decimals are written, so fewer are read
    have hshort := written_short (a := a) name (by omega)
    obtain ⟨r, hr, -, hparsed⟩ := fromString_some hfc hback
    obtain rfl : r = a.written name := Reading.text_injective hr.2 hreads.2 (hr.1.symm.trans hreads.1)
    have hdec : a.symbol.decimals = (a.written name).decimals := congrArg (fun x => x.symbol.decimals) hparsed
    omega
  · intro hr
    obtain ⟨hdec, hfract⟩ := written_full name hr
    have hunits := written_units name hr
    have hexact : (a.written name).Exact := ⟨written_sign name hr, by rw [hunits]; exact h.amount⟩
    have hacc : (a.written name).Accepted :=
      ⟨written_whole h name, by rw [hdec]; exact h.decimals, hlen, fun _ => hdot⟩
    rw [fromString_accepted hfc hreads hacc]
    have hamount := (Reading.parsed_amount_iff hreads.2 hacc).mpr hexact
    rw [hunits] at hamount
    have hsymbol : (a.written name).parsed.symbol = a.symbol := by
      show AssetSymbol.mk (a.written name).decimals (name ++ List.replicate (7 - name.length) '\x00') = a.symbol
      rw [hdec, ← htext]
    exact congrArg some (Asset.ext hamount hsymbol)

/-! ## What is written in a text -/

/-- **A text is read right**: refused, or read as the number that is written in it. -/
def ReadRight (fc : Fc) (s : List Char) : Prop :=
  ∀ a, fromString fc s = some a →
    ∃ r : Reading, r.Reads fc s ∧ a.amount * 10 ^ r.decimals = r.units * 10 ^ a.symbol.decimals

include hfc in
/-- **A text is read right exactly when every reading within the bounds of the parser is exact.** -/
theorem readRight_iff (s : List Char) :
    ReadRight fc s ↔ ∀ r : Reading, r.Reads fc s → r.Accepted → r.Exact := by
  have hpow : ∀ n : Nat, (10 : Int) ^ n ≠ 0 := fun n => Int.ne_of_gt (Int.pow_pos (by decide))
  constructor
  · intro h r hr ha
    obtain ⟨r', hr', hexact⟩ := h _ (fromString_accepted hfc hr ha)
    obtain rfl : r' = r := Reading.text_injective hr'.2 hr.2 (hr'.1.symm.trans hr.1)
    exact (Reading.parsed_amount_iff hr.2 ha).mp (Int.eq_of_mul_eq_mul_right (hpow _) hexact)
  · intro h a hread
    obtain ⟨r, hr, ha, rfl⟩ := fromString_some hfc hread
    refine ⟨r, hr, ?_⟩
    rw [(Reading.parsed_amount_iff hr.2 ha).mpr (h r hr ha)]
    rfl

include hfc in
/-- **The text conversions**: a valid asset is read back from its text exactly when it is not negative or has
    nothing behind the point, and a text is read right exactly when no minus sign stands in front of digits
    behind the point that are not all zero and the number fits. -/
theorem text_exact_iff :
    (∀ a : Asset, a.Valid → ((a.toString fc).bind (fromString fc) = some a ↔
      0 ≤ a.amount ∨ 10 ^ a.symbol.decimals ∣ a.amount)) ∧
    (∀ s, ReadRight fc s ↔ ∀ r : Reading, r.Reads fc s → r.Accepted →
      (r.sign = .minus → value r.fraction = 0) ∧ InInt64 r.units) :=
  ⟨fun _ ha => roundTrip_iff hfc ha, fun s => readRight_iff hfc s⟩

end Asset

namespace Sample

/-- The sign in front of a text and what stands behind it. -/
def splitSign : List Char → Sign × List Char
  | '+' :: ds => (.plus, ds)
  | '-' :: ds => (.minus, ds)
  | ds        => (.none, ds)

/-- The conversions of `fc`. -/
def textFc : Fc where
  trim s := ((s.dropWhile isSpace).reverse.dropWhile isSpace).reverse
  toString x := (Asset.printed x).text ++ Nat.toDigits 10 x.natAbs
  toInt64 s :=
    let p := splitSign s
    if p.2 ≠ [] ∧ Digits p.2 ∧ InInt64 (p.1.apply (value p.2)) then some (p.1.apply (value p.2))
    else none

theorem splitSign_text (s : List Char) : s = (splitSign s).1.text ++ (splitSign s).2 := by
  unfold splitSign
  split <;> rfl

theorem splitSign_digits {sign : Sign} {ds : List Char} (hds : Digits ds) : splitSign (sign.text ++ ds) = (sign, ds) := by
  cases sign
  case plus => rfl
  case minus => rfl
  case none =>
    unfold splitSign
    split
    · next ds' heq =>
        obtain rfl : ds = '+' :: ds' := heq
        exact absurd List.mem_cons_self (hds.not_mem (by decide : '+'.isDigit = false))
    · next ds' heq =>
        obtain rfl : ds = '-' :: ds' := heq
        exact absurd List.mem_cons_self (hds.not_mem (by decide : '-'.isDigit = false))
    · rfl

theorem textFc_documented : textFc.Documented where
  trim s := by
    refine ⟨s.takeWhile isSpace, ((s.dropWhile isSpace).reverse.takeWhile isSpace).reverse, ?_, ?_⟩
    · show s = s.takeWhile isSpace ++ ((s.dropWhile isSpace).reverse.dropWhile isSpace).reverse ++ _
      rw [List.append_assoc, ← List.reverse_append, List.takeWhile_append_dropWhile, List.reverse_reverse,
        List.takeWhile_append_dropWhile]
    · intro c hc
      rcases List.mem_append.mp hc with hc | hc
      · exact List.all_eq_true.mp List.all_takeWhile c hc
      · exact List.all_eq_true.mp List.all_takeWhile c (List.mem_reverse.mp hc)
  ofNat n := by
    have hn : Asset.printed (n : Int) = .none := if_neg (by omega)
    show (Asset.printed (n : Int)).text ++ _ = _
    rw [hn]
    rfl
  ofNeg n h := by
    have hn : Asset.printed (-(n : Int)) = .minus := if_pos (by omega)
    show (Asset.printed (-(n : Int))).text ++ Nat.toDigits 10 (-(n : Int)).natAbs = _
    rw [hn, Int.natAbs_neg]
    rfl
  toInt64 s v := by
    show (if _ then _ else none) = some v ↔ _
    constructor
    · intro h
      split at h
      · next hc =>
          obtain rfl := Option.some.inj h
          exact ⟨(splitSign s).1, (splitSign s).2, splitSign_text s, hc.1, hc.2.1, rfl, hc.2.2⟩
      · exact absurd h (by simp)
    · rintro ⟨sign, ds, rfl, hne, hds, rfl, hin⟩
      rw [splitSign_digits hds]
      exact if_pos ⟨hne, hds, hin⟩

/-- An amount with three decimals. -/
def vizAmount (x : Int) : Asset where
  amount := x
  symbol := { decimals := 3, text := ['V', 'I', 'Z', '\x00', '\x00', '\x00', '\x00'] }

theorem vizAmount_valid {x : Int} (h : InInt64 x) : (vizAmount x).Valid where
  amount := h
  decimals := by
    show 3 < 15
    decide
  named := ⟨['V', 'I', 'Z'], rfl, by decide, by decide, by simp [isSpace]⟩

end Sample

namespace Asset

open Sample in
/-- **The sign is lost, digits are lost, and large numbers wrap.** -/
theorem text_not_exact :
    (vizAmount (-7005)).Valid ∧ (vizAmount (-7005)).toString textFc = some "-7.95 VIZ".toList ∧
      ((vizAmount (-7005)).toString textFc).bind (fromString textFc) ≠ some (vizAmount (-7005)) ∧
      fromString textFc "-7.005 VIZ".toList = some (vizAmount (-6995)) ∧
      fromString textFc "-0.500 VIZ".toList = some (vizAmount 500) ∧
      fromString textFc "9223372036854775807.000 VIZ".toList = some (vizAmount (-1000)) := by
  refine ⟨vizAmount_valid (by decide), ?_, ?_, ?_, ?_, ?_⟩
  all_goals decide +kernel

open Sample in
/-- An amount that is read back, and a text that is read right. -/
theorem text_exact_iff_sample :
    ((vizAmount 7005).toString textFc).bind (fromString textFc) = some (vizAmount 7005) ∧
      ¬ ReadRight textFc "-0.500 VIZ".toList := by
  have h := text_exact_iff textFc_documented
  refine ⟨(h.1 _ (vizAmount_valid (by decide))).mpr (.inl (by decide)), ?_⟩
  rw [h.2]
  intro hall
  have hexact := hall ⟨.minus, ['0'], some ['5', '0', '0'], ['V', 'I', 'Z']⟩
    ⟨by decide +kernel, by decide, by decide, by decide⟩
    ⟨by decide, by decide, by decide, by simp⟩
  exact absurd (hexact.1 rfl) (by decide)

end Asset

end VizNode
