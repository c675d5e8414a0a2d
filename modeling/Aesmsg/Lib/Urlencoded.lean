import Aesmsg.Lib.Utf8

/-!
# Query strings

The parser of `application/x-www-form-urlencoded`, as `URLSearchParams` uses it.

## Main results

- `get_single`: a parameter on its own, of characters that are not encoded, is found.
-/

namespace Urlencoded

/-- The value of a hexadecimal digit. -/
def hexValue (b : UInt8) : Option UInt8 :=
  if 0x30 ≤ b ∧ b ≤ 0x39 then some (b - 0x30)
  else if 0x41 ≤ b ∧ b ≤ 0x46 then some (b - 0x37)
  else if 0x61 ≤ b ∧ b ≤ 0x66 then some (b - 0x57)
  else none

/-- A `%` without two digits after it stands for itself. -/
def percentDecode : List UInt8 → List UInt8
  | [] => []
  | [b] => [b]
  | [b, b'] => [b, b']
  | b :: hi :: lo :: rest =>
    if b = 0x25 then
      match hexValue hi, hexValue lo with
      | some hi, some lo => (hi * 16 + lo) :: percentDecode rest
      | _, _ => b :: percentDecode (hi :: lo :: rest)
    else b :: percentDecode (hi :: lo :: rest)

def plusToSpace (b : UInt8) : UInt8 := if b = 0x2B then 0x20 else b

/-- A name or a value. -/
def component (bs : List UInt8) : String :=
  String.ofList (Utf8.decode (percentDecode (bs.map plusToSpace)))

/-- A sequence between two `&`, split at its first `=`. -/
def pair (bs : List UInt8) : String × String :=
  (component (bs.takeWhile (· ≠ 0x3D)), component ((bs.dropWhile (· ≠ 0x3D)).drop 1))

/-- A leading `?` is dropped. -/
def query (text : List Char) : List Char := if text.head? = some '?' then text.drop 1 else text

/-- `new URLSearchParams(text)` -/
def parse (text : String) : List (String × String) :=
  (((Utf8.encode (query text.toList)).splitOn 0x26).filter (· ≠ [])).map pair

def get (params : List (String × String)) (name : String) : Option String :=
  (params.find? (·.1 = name)).map (·.2)

/-! ## Characters that are not encoded -/

/-- A character that stands for itself and separates nothing. -/
def IsPlain (c : Char) : Prop := c.toNat < 128 ∧ c ∉ ['%', '+', '&', '=', '?']

/-- The byte of such a character. -/
def byte (c : Char) : UInt8 := UInt8.ofNat c.toNat

theorem byte_ne {c d : Char} (hc : c.toNat < 128) (hd : d.toNat < 128) (hne : c ≠ d) : byte c ≠ byte d := by
  intro h
  have hnat := congrArg UInt8.toNat h
  unfold byte at hnat
  rw [UInt8.toNat_ofNat_of_lt' (Nat.lt_trans hc (by decide)),
    UInt8.toNat_ofNat_of_lt' (Nat.lt_trans hd (by decide))] at hnat
  exact hne (Char.toNat_inj.mp hnat)

theorem IsPlain.byte_ne {c d : Char} (h : IsPlain c) (hd : d ∈ ['%', '+', '&', '=', '?']) :
    byte c ≠ byte d := by
  have hall : ['%', '+', '&', '=', '?'].all (fun d ↦ decide (d.toNat < 128)) = true := rfl
  have hlt : d.toNat < 128 := of_decide_eq_true (List.all_eq_true.mp hall d hd)
  exact Urlencoded.byte_ne h.1 hlt fun heq ↦ h.2 (heq ▸ hd)

theorem encode_ascii {cs : List Char} (h : ∀ c ∈ cs, c.toNat < 128) : Utf8.encode cs = cs.map byte := by
  induction cs with
  | nil => rfl
  | cons c cs ih =>
    obtain ⟨hc, hcs⟩ := List.forall_mem_cons.mp h
    have hone : String.utf8EncodeChar c = [byte c] := by
      have hle : c.val.toNat ≤ 0x7F := Nat.le_of_lt_succ hc
      unfold String.utf8EncodeChar
      rw [if_pos hle]
      rfl
    rw [Utf8.encode_cons, hone, ih hcs]
    rfl

theorem percentDecode_of_ne {bs : List UInt8} (h : ∀ b ∈ bs, b ≠ 0x25) : percentDecode bs = bs := by
  fun_induction percentDecode bs with
  | case1 | case2 | case3 => rfl
  | case4 hi lo rest | case5 hi lo rest => exact absurd rfl (h _ List.mem_cons_self)
  | case6 b hi lo rest hb ih => rw [ih (List.forall_mem_cons.mp h).2]

/-- What is not encoded is read as it is. -/
theorem component_plain {cs : List Char} (h : ∀ c ∈ cs, IsPlain c) :
    component (cs.map byte) = String.ofList cs := by
  have hplus : (cs.map byte).map plusToSpace = cs.map byte := by
    rw [List.map_map]
    refine List.map_congr_left fun c hc ↦ ?_
    exact if_neg ((h c hc).byte_ne (d := '+') (by decide))
  have hpercent : ∀ b ∈ cs.map byte, b ≠ 0x25 := by
    intro b hb
    obtain ⟨c, hc, rfl⟩ := List.mem_map.mp hb
    exact (h c hc).byte_ne (d := '%') (by decide)
  unfold component
  rw [hplus, percentDecode_of_ne hpercent, ← encode_ascii fun c hc ↦ (h c hc).1, Utf8.decode_encode]

/-- A query of one parameter. -/
theorem get_single {name value : List Char} (hname : ∀ c ∈ name, IsPlain c)
    (hvalue : ∀ c ∈ value, IsPlain c) :
    get (parse (String.ofList ('?' :: (name ++ '=' :: value)))) (String.ofList name) =
      some (String.ofList value) := by
  have hascii : ∀ c ∈ name ++ '=' :: value, c.toNat < 128 := by
    intro c hc
    rcases List.mem_append.mp hc with hc | hc
    · exact (hname c hc).1
    · rcases List.mem_cons.mp hc with rfl | hc
      · decide
      · exact (hvalue c hc).1
  have hencode : Utf8.encode (name ++ '=' :: value) = name.map byte ++ byte '=' :: value.map byte := by
    rw [encode_ascii hascii, List.map_append, List.map_cons]
  have hsplit : (Utf8.encode (name ++ '=' :: value)).splitOn 0x26 =
      [name.map byte ++ byte '=' :: value.map byte] := by
    rw [hencode]
    refine List.splitOnP_eq_singleton fun b hb ↦ ?_
    have hne : b ≠ byte '&' := by
      rcases List.mem_append.mp hb with hb | hb
      · obtain ⟨c, hc, rfl⟩ := List.mem_map.mp hb
        exact (hname c hc).byte_ne (by decide)
      · rcases List.mem_cons.mp hb with rfl | hb
        · decide
        · obtain ⟨c, hc, rfl⟩ := List.mem_map.mp hb
          exact (hvalue c hc).byte_ne (by decide)
    exact beq_eq_false_iff_ne.mpr hne
  have htake : ∀ b ∈ name.map byte, decide (b ≠ 0x3D) = true := by
    intro b hb
    obtain ⟨c, hc, rfl⟩ := List.mem_map.mp hb
    exact decide_eq_true ((hname c hc).byte_ne (d := '=') (by decide))
  have hpair : pair (name.map byte ++ byte '=' :: value.map byte) =
      (String.ofList name, String.ofList value) := by
    unfold pair
    rw [List.takeWhile_append_of_pos htake, List.dropWhile_append_of_pos htake]
    have hstop : decide (byte '=' ≠ 0x3D) = false := rfl
    rw [List.takeWhile_cons_of_neg (by simp [hstop]), List.dropWhile_cons_of_neg (by simp [hstop]),
      List.append_nil, component_plain hname]
    exact congrArg _ (component_plain hvalue)
  have hparse : parse (String.ofList ('?' :: (name ++ '=' :: value))) =
      [(String.ofList name, String.ofList value)] := by
    unfold parse
    rw [String.toList_ofList]
    show (((Utf8.encode (name ++ '=' :: value)).splitOn 0x26).filter (· ≠ [])).map pair = _
    rw [hsplit]
    have hfilter : [name.map byte ++ byte '=' :: value.map byte].filter (· ≠ []) =
        [name.map byte ++ byte '=' :: value.map byte] := List.filter_eq_self.mpr (by simp)
    rw [hfilter, List.map_singleton, hpair]
  rw [hparse]
  unfold get
  rw [List.find?_cons_of_pos (by simp)]
  rfl

end Urlencoded
