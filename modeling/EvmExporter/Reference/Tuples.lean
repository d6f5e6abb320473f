import EvmExporter.Reference

/-! The reference libraries with tuples of static words and arrays of such tuples, encoded as
the ABI lays them out: a tuple is inlined, and a function that returns one array returns an
offset, the length and the elements. -/

namespace EvmExporter.Reference

open Lib

/-! ### Inlined values -/

/-- The words of a scalar or of a tuple of scalars. -/
def encodeFlat : DynSolValue → Option Bytes
  | .tuple fields => encodeWords fields
  | v => encodeWord v

/-- Read a scalar or a tuple of scalars from the front of the data. -/
def decodeFlat (ty : DynSolType) (data : Bytes) : Option DynSolValue :=
  match ty with
  | .tuple tys => (decodeWords tys data).map .tuple
  | ty => decodeWord ty (data.take 32)

/-- The number of bytes of an inlined value. -/
def flatSize : DynSolType → ℕ
  | .tuple tys => 32 * tys.length
  | _ => 32

def encodeFlats (vals : List DynSolValue) : Option Bytes :=
  (vals.mapM encodeFlat).map List.flatten

def decodeFlats : List DynSolType → Bytes → Option (List DynSolValue)
  | [], _ => some []
  | ty :: tys, data => do
    let v ← decodeFlat ty data
    let vs ← decodeFlats tys (data.drop (flatSize ty))
    return v :: vs

theorem encodeWords_length {vals : List DynSolValue} {data : Bytes}
    (h : encodeWords vals = some data) : data.length = 32 * vals.length := by
  induction vals generalizing data with
  | nil =>
    obtain rfl : [] = data := by simpa [encodeWords] using h
    rfl
  | cons v vals ih =>
    rw [encodeWords, List.mapM_cons] at h
    cases hw : encodeWord v with
    | none => simp [hw] at h
    | some word =>
      cases hws : vals.mapM encodeWord with
      | none => simp [hw, hws] at h
      | some words =>
        obtain rfl : word ++ words.flatten = data := by simpa [hw, hws] using h
        have hwords : encodeWords vals = some words.flatten := by simp [encodeWords, hws]
        have hrest := ih hwords
        rw [List.length_append, encodeWord_length hw, hrest, List.length_cons]
        omega

/-- Values that are no tuples are words. -/
theorem flat_of_not_tuple {ty : DynSolType} {v : DynSolValue} (hv : ty.Matches v)
    (hty : ∀ tys, ty ≠ .tuple tys) : encodeFlat v = encodeWord v ∧
      (∀ data, decodeFlat ty data = decodeWord ty (data.take 32)) ∧ flatSize ty = 32 := by
  cases hv <;> first | exact ⟨rfl, fun _ => rfl, rfl⟩ | exact absurd rfl (hty _)

theorem decodeFlat_encodeFlat {ty : DynSolType} {v : DynSolValue} {data : Bytes}
    (hv : ty.Matches v) (h : encodeFlat v = some data) (rest : Bytes) :
    decodeFlat ty (data ++ rest) = some v ∧ data.length = flatSize ty := by
  by_cases htuple : ∃ tys, ty = .tuple tys
  · obtain ⟨tys, rfl⟩ := htuple
    cases hv with
    | tuple hfields =>
      have hlen := encodeWords_length h
      rw [← hfields.length_eq] at hlen
      exact ⟨by simp [decodeFlat, decodeWords_encodeWords hfields h], hlen⟩
  · obtain ⟨hencode, hdecode, hsize⟩ := flat_of_not_tuple hv fun tys htys => htuple ⟨tys, htys⟩
    rw [hencode] at h
    have hlen := encodeWord_length h
    rw [hdecode, hsize, List.take_append_of_le_length hlen.ge, List.take_of_length_le hlen.le]
    exact ⟨decodeWord_encodeWord hv h, hlen⟩

theorem decodeFlats_encodeFlats {tys : List DynSolType} {vals : List DynSolValue} {data : Bytes}
    (hv : List.Forall₂ DynSolType.Matches tys vals) (h : encodeFlats vals = some data) :
    decodeFlats tys data = some vals := by
  induction hv generalizing data with
  | nil => rfl
  | @cons ty v tys vals hv _ ih =>
    rw [encodeFlats, List.mapM_cons] at h
    cases hw : encodeFlat v with
    | none => simp [hw] at h
    | some flat =>
      cases hws : vals.mapM encodeFlat with
      | none => simp [hw, hws] at h
      | some flats =>
        obtain rfl : flat ++ flats.flatten = data := by simpa [hw, hws] using h
        obtain ⟨hone, hlen⟩ := decodeFlat_encodeFlat hv hw flats.flatten
        have hrest : decodeFlats tys flats.flatten = some vals := ih (by simp [encodeFlats, hws])
        simp [decodeFlats, hone, ← hlen, hrest]

/-! ### Return values -/

/-- Scalars, tuples of scalars and arrays of them. -/
def resolveTuple (p : AbiParam) : Except String DynSolType :=
  if p.components.isEmpty then resolve p
  else do
    let tys ← p.components.mapM fun c =>
      if c.components.isEmpty then resolve c else .error "nested tuple"
    match p.ty with
    | "tuple" => .ok (.tuple tys)
    | "tuple[]" => .ok (.array (.tuple tys))
    | ty => .error s!"unknown type {ty}"

def encodeReturn (_ : AbiFunction) (vals : List DynSolValue) : Except String Bytes :=
  match encodeFlats vals with
  | some data => .ok data
  | none =>
    match vals with
    | [.array elems] =>
      match encodeFlats elems with
      | some data =>
        if elems.length < 2 ^ 256 then .ok (toBytes 32 32 ++ toBytes 32 elems.length ++ data)
        else .error "array too long"
      | none => .error "not a static value"
    | _ => .error "not a static value"

/-- Read one array behind its offset and its length, or inlined values. -/
def decodeReturns (tys : List DynSolType) (data : Bytes) : Option (List DynSolValue) :=
  match tys with
  | [.array ty] =>
    (decodeFlats (List.replicate (ofBytes ((data.drop 32).take 32)) ty) (data.drop 64)).map
      fun elems => [.array elems]
  | tys => decodeFlats tys data

def decodeReturn (func : AbiFunction) (data : Bytes) : Except String (List DynSolValue) := do
  let tys ← func.outputs.mapM resolveTuple
  match decodeReturns tys data with
  | some vals => .ok vals
  | none => .error "type check failed"

theorem forall₂_replicate {ty : DynSolType} {elems : List DynSolValue}
    (h : ∀ v ∈ elems, ty.Matches v) :
    List.Forall₂ DynSolType.Matches (List.replicate elems.length ty) elems := by
  induction elems with
  | nil => exact .nil
  | cons v elems ih =>
    exact .cons (h v List.mem_cons_self) (ih fun w hw => h w (List.mem_cons_of_mem v hw))

theorem encodeFlats_array (elems : List DynSolValue) : encodeFlats [.array elems] = none := by
  simp [encodeFlats, encodeFlat, encodeWord]

theorem decodeReturns_encodeReturn {func : AbiFunction} {tys : List DynSolType}
    {vals : List DynSolValue} {data : Bytes} (hv : List.Forall₂ DynSolType.Matches tys vals)
    (h : encodeReturn func vals = .ok data) : decodeReturns tys data = some vals := by
  unfold encodeReturn at h
  split at h
  next data' hflat =>
    obtain rfl := Except.ok.inj h
    unfold decodeReturns
    split
    next ty =>
      -- one array is not inlined
      cases hv with
      | cons harray hnil =>
        cases hnil
        cases harray
        simp [encodeFlats_array] at hflat
    next => exact decodeFlats_encodeFlats hv hflat
  next hflat =>
    split at h
    next elems =>
      split at h
      next flat hflats =>
        split_ifs at h with hlen
        obtain rfl := Except.ok.inj h
        cases hv with
        | cons harray hnil =>
          cases hnil
          cases harray with
          | array helems =>
            have hcount : ofBytes (toBytes 32 elems.length) = elems.length := by
              rw [ofBytes_toBytes]
              exact Nat.mod_eq_of_lt (hlen.trans_eq (by norm_num))
            have hdrop : (toBytes 32 32 ++ toBytes 32 elems.length ++ flat).drop 64 = flat := by
              rw [List.drop_append_of_le_length (by simp)]
              simp
            have helems := decodeFlats_encodeFlats (forall₂_replicate helems) hflats
            rw [decodeReturns, hdrop]
            simp [hcount, helems]
      next => cases h
    next => cases h

/-- The reference libraries with this coder for return values. -/
def tupleReference : Deps :=
  { reference with
    resolve := resolveTuple
    abiEncodeOutput := encodeReturn
    abiDecodeOutput := decodeReturn }

theorem tuple_resolvesComponents : tupleReference.ResolvesComponents := by
  intro param ty hne hty
  change resolveTuple param = .ok ty at hty
  rw [resolveTuple, if_neg (by simpa using hne)] at hty
  obtain ⟨tys, htys, hty⟩ := bind_eq_ok.mp hty
  have hcomponents : List.Forall₂ (fun c ty => tupleReference.resolve c = .ok ty)
      param.components tys := by
    refine (mapM_eq_ok.mp htys).imp fun c cty hc => ?_
    split_ifs at hc with hempty
    change resolveTuple c = .ok cty
    rwa [resolveTuple, if_pos hempty]
  split at hty
  next htext =>
    obtain rfl := Except.ok.inj hty
    rw [AbiParam.hasArraySuffix, htext, if_neg (by decide)]
    exact ⟨tys, rfl, hcomponents⟩
  next htext =>
    obtain rfl := Except.ok.inj hty
    rw [AbiParam.hasArraySuffix, htext, if_pos (by decide)]
    exact .inl ⟨_, rfl⟩
  next => cases hty

theorem tuple_decodeInvertsEncode : tupleReference.DecodeInvertsEncode := by
  intro func vals data hvals henc
  obtain ⟨tys, htys, hmatch⟩ := mapM_of_forall₂ hvals
  have htypes : List.Forall₂ DynSolType.Matches tys vals := hmatch.imp fun ty v h => h.1
  change encodeReturn func vals = .ok data at henc
  change decodeReturn func data = .ok vals
  change func.outputs.mapM resolveTuple = .ok tys at htys
  have hdecode := decodeReturns_encodeReturn htypes henc
  simp [decodeReturn, htys, hdecode, bind, Except.bind]

end EvmExporter.Reference
