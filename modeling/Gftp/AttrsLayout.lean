import Gftp.SshListing

/-!
The attributes of a file as SFTP version 3 lays them out: a word of flags, the parts
the flags announce and the extended pairs of strings. The size of the structure at
the start of a byte string is found exactly where a structure is.
-/

namespace Gftp.AttrsLayout

open ByteStrings BigEndian SshListing

/-- An ATTRS structure. A part is on the wire when its flag is set. -/
structure Attrs where
  flags : UInt32
  size : UInt64
  uid : UInt32
  gid : UInt32
  permissions : UInt32
  atime : UInt32
  mtime : UInt32
  extended : List (Bytes × Bytes)
  count : extended.length < 2 ^ 32
  short : ∀ p ∈ extended, p.1.length < 2 ^ 32 ∧ p.2.length < 2 ^ 32

/-- A string with its length in front. -/
def stringBytes (s : Bytes) : Bytes := be32 (UInt32.ofNat s.length) ++ s

def pairBytes (l : List (Bytes × Bytes)) : Bytes :=
  l.flatMap fun p => stringBytes p.1 ++ stringBytes p.2

def Attrs.encode (a : Attrs) : Bytes :=
  be32 a.flags ++
    ((if hasAttr a.flags sshFilexferAttrSize then be64 a.size else []) ++
    ((if hasAttr a.flags sshFilexferAttrUidgid then be32 a.uid ++ be32 a.gid else []) ++
    ((if hasAttr a.flags sshFilexferAttrPermissions then be32 a.permissions else []) ++
    ((if hasAttr a.flags sshFilexferAttrAcmodtime then be32 a.atime ++ be32 a.mtime else []) ++
      (if hasAttr a.flags sshFilexferAttrExtended then
        be32 (UInt32.ofNat a.extended.length) ++ pairBytes a.extended else [])))))

/-- Where the times begin when they are there: after the flags, the size, the owner and
the permissions. -/
def timesAt (flags : UInt32) : ℕ :=
  4 + (if hasAttr flags sshFilexferAttrSize then 8 else 0) +
    (if hasAttr flags sshFilexferAttrUidgid then 8 else 0) +
    (if hasAttr flags sshFilexferAttrPermissions then 4 else 0)

def extendedAt (flags : UInt32) : ℕ :=
  timesAt flags + if hasAttr flags sshFilexferAttrAcmodtime then 8 else 0

/-- The size of a string at the start of d that is followed by pad bytes. -/
def stringSize (pad : ℕ) (d : Bytes) : Option ℕ :=
  match read32 d with
  | none => none
  | some n => if d.length < 4 + n.toNat + pad then none else some (4 + n.toNat + pad)

/-- The size of k such strings in a row. -/
def stringsSize (pad : ℕ) : ℕ → Bytes → Option ℕ
  | 0, _ => some 0
  | k + 1, d => (stringSize pad d).bind fun n => (stringsSize pad k (d.drop n)).map (n + ·)

/-- The size of the structure at the start of d, none when it is cut off. -/
def attrsSize (d : Bytes) : Option ℕ :=
  match read32 d with
  | none => none
  | some flags =>
      if d.length < extendedAt flags then none
      else if hasAttr flags sshFilexferAttrExtended then
        match read32 (d.drop (extendedAt flags)) with
        | none => none
        | some count =>
            (stringsSize 0 (2 * count.toNat) (d.drop (extendedAt flags + 4))).map
              (extendedAt flags + 4 + ·)
      else some (extendedAt flags)

theorem stringBytes_length (s : Bytes) : (stringBytes s).length = 4 + s.length := by
  simp [stringBytes]

theorem stringSize_stringBytes {s : Bytes} (h : s.length < 2 ^ 32) (rest : Bytes) :
    stringSize 0 (stringBytes s ++ rest) = some (stringBytes s).length := by
  have hlen : (UInt32.ofNat s.length).toNat = s.length := by
    rw [UInt32.toNat_ofNat']
    exact Nat.mod_eq_of_lt h
  unfold stringSize stringBytes
  simp only [List.append_assoc, read32_be32, hlen, List.length_append, be32_length]
  rw [if_neg (by omega)]
  simp

theorem stringSize_eq_some {d : Bytes} {n : ℕ} (h : stringSize 0 d = some n) :
    ∃ s : Bytes, s.length < 2 ^ 32 ∧ (stringBytes s).length = n ∧ d = stringBytes s ++ d.drop n := by
  unfold stringSize at h
  split at h
  · simp at h
  · rename_i w hw
    split_ifs at h with hlen
    obtain rfl := Option.some.inj h
    have hd := be32_of_read32 hw
    have htake : ((d.drop 4).take w.toNat).length = w.toNat := by
      simp only [List.length_take, List.length_drop]
      omega
    refine ⟨(d.drop 4).take w.toNat, ?_, ?_, ?_⟩
    · rw [htake]
      exact w.toNat_lt
    · rw [stringBytes_length, htake]
      rfl
    · have hsplit : (d.drop 4).take w.toNat ++ d.drop (4 + w.toNat + 0) = d.drop 4 := by
        rw [Nat.add_zero, ← List.drop_drop, List.take_append_drop]
      rw [stringBytes, htake, UInt32.ofNat_toNat, List.append_assoc, hsplit]
      exact hd

theorem stringsSize_pairBytes {l : List (Bytes × Bytes)}
    (h : ∀ p ∈ l, p.1.length < 2 ^ 32 ∧ p.2.length < 2 ^ 32) (rest : Bytes) :
    stringsSize 0 (2 * l.length) (pairBytes l ++ rest) = some (pairBytes l).length := by
  induction l with
  | nil => rfl
  | cons p l ih =>
    obtain ⟨hkey, hvalue⟩ := h p (List.mem_cons_self ..)
    have hl := ih fun q hq => h q (List.mem_cons_of_mem _ hq)
    have hbytes : pairBytes (p :: l) ++ rest =
        stringBytes p.1 ++ (stringBytes p.2 ++ (pairBytes l ++ rest)) := by
      simp [pairBytes]
    rw [hbytes, List.length_cons, Nat.mul_succ]
    simp only [stringsSize, stringSize_stringBytes hkey, stringSize_stringBytes hvalue,
      Option.bind_some, List.drop_left, hl, Option.map_some]
    simp [pairBytes]

theorem stringsSize_eq_some {count n : ℕ} {d : Bytes}
    (h : stringsSize 0 (2 * count) d = some n) :
    ∃ l : List (Bytes × Bytes), l.length = count ∧
      (∀ p ∈ l, p.1.length < 2 ^ 32 ∧ p.2.length < 2 ^ 32) ∧
      (pairBytes l).length = n ∧ d = pairBytes l ++ d.drop n := by
  induction count generalizing n d with
  | zero =>
    obtain rfl : 0 = n := by simpa [stringsSize] using h
    exact ⟨[], rfl, by simp, rfl, rfl⟩
  | succ count ih =>
    rw [Nat.mul_succ] at h
    simp only [stringsSize, Option.bind_eq_some_iff, Option.map_eq_some_iff] at h
    obtain ⟨n₁, hkey, m, ⟨n₂, hvalue, k, hrest, rfl⟩, rfl⟩ := h
    obtain ⟨key, hkeyLen, rfl, hd⟩ := stringSize_eq_some hkey
    obtain ⟨value, hvalueLen, rfl, hd'⟩ := stringSize_eq_some hvalue
    obtain ⟨l, rfl, hl, rfl, hd''⟩ := ih hrest
    refine ⟨(key, value) :: l, rfl, ?_, ?_, ?_⟩
    · simp only [List.mem_cons, forall_eq_or_imp]
      exact ⟨⟨hkeyLen, hvalueLen⟩, hl⟩
    · simp [pairBytes]
    · rw [List.drop_drop] at hd' hd''
      rw [List.drop_drop] at hd''
      rw [← Nat.add_assoc]
      calc d = stringBytes key ++ d.drop (stringBytes key).length := hd
        _ = stringBytes key ++ (stringBytes value ++
            d.drop ((stringBytes key).length + (stringBytes value).length)) := by rw [← hd']
        _ = stringBytes key ++ (stringBytes value ++ (pairBytes l ++
            d.drop ((stringBytes key).length + (stringBytes value).length +
              (pairBytes l).length))) := by rw [← hd'']
        _ = _ := by simp [pairBytes]

/-- The parts before the times of a structure take up the room the flags say. -/
private theorem encode_eq (a : Attrs) :
    ∃ front : Bytes, front.length + 4 = extendedAt a.flags ∧ a.encode = be32 a.flags ++ (front ++
      (if hasAttr a.flags sshFilexferAttrExtended then
        be32 (UInt32.ofNat a.extended.length) ++ pairBytes a.extended else [])) := by
  refine ⟨(if hasAttr a.flags sshFilexferAttrSize then be64 a.size else []) ++
    ((if hasAttr a.flags sshFilexferAttrUidgid then be32 a.uid ++ be32 a.gid else []) ++
    ((if hasAttr a.flags sshFilexferAttrPermissions then be32 a.permissions else []) ++
    (if hasAttr a.flags sshFilexferAttrAcmodtime then be32 a.atime ++ be32 a.mtime else []))),
    ?_, ?_⟩
  · simp only [List.length_append, extendedAt, timesAt, apply_ite List.length, be32_length,
      be64_length, List.length_nil, Nat.reduceAdd]
    omega
  · simp only [Attrs.encode, List.append_assoc]

theorem attrsSize_encode (a : Attrs) (rest : Bytes) :
    attrsSize (a.encode ++ rest) = some a.encode.length := by
  obtain ⟨front, hfront, hencode⟩ := encode_eq a
  have hcount : (UInt32.ofNat a.extended.length).toNat = a.extended.length := by
    rw [UInt32.toNat_ofNat']
    exact Nat.mod_eq_of_lt a.count
  have hpre : (be32 a.flags ++ front).length = extendedAt a.flags := by
    rw [List.length_append, be32_length]
    omega
  unfold attrsSize
  rw [hencode, List.append_assoc, read32_be32]
  dsimp only
  by_cases hext : hasAttr a.flags sshFilexferAttrExtended = true
  · simp only [hext, if_true]
    have hdrop : (be32 a.flags ++ ((front ++ (be32 (UInt32.ofNat a.extended.length) ++
        pairBytes a.extended)) ++ rest)) = (be32 a.flags ++ front) ++
          (be32 (UInt32.ofNat a.extended.length) ++ (pairBytes a.extended ++ rest)) := by
      simp only [List.append_assoc]
    rw [hdrop, if_neg (by rw [List.length_append, hpre]; omega), ← hpre, List.drop_left,
      read32_be32, ← List.drop_drop, List.drop_left]
    have hskip : (be32 (UInt32.ofNat a.extended.length) ++ (pairBytes a.extended ++ rest)).drop 4 =
        pairBytes a.extended ++ rest := rfl
    rw [hskip]
    simp only [hcount, stringsSize_pairBytes a.short, Option.map_some]
    simp [Nat.add_assoc]
  · simp only [if_neg hext, List.append_nil, ← List.append_assoc]
    rw [if_neg (by simp only [List.length_append] at hpre ⊢; omega), hpre]

private theorem some_word {x : Bytes} (h : x.length = 4) : ∃ w, x = be32 w := by
  obtain ⟨w, hw⟩ := Option.isSome_iff_exists.mp ((read32_isSome_iff x).mpr (by omega))
  refine ⟨w, ?_⟩
  have hx := be32_of_read32 hw
  rwa [List.drop_of_length_le (by omega), List.append_nil] at hx

private theorem some_words {x : Bytes} (h : x.length = 8) : ∃ u v, x = be32 u ++ be32 v := by
  obtain ⟨u, hu⟩ := @some_word (x.take 4) (by rw [List.length_take]; omega)
  obtain ⟨v, hv⟩ := @some_word (x.drop 4) (by rw [List.length_drop]; omega)
  exact ⟨u, v, by rw [← hu, ← hv, List.take_append_drop]⟩

private theorem some_long {x : Bytes} (h : x.length = 8) : ∃ n, x = be64 n := by
  obtain ⟨u, v, rfl⟩ := some_words h
  have hu := u.toNat_lt
  have hv := v.toNat_lt
  refine ⟨UInt64.ofNat (u.toNat * 2 ^ 32 + v.toNat), ?_⟩
  have hn : (UInt64.ofNat (u.toNat * 2 ^ 32 + v.toNat)).toNat = u.toNat * 2 ^ 32 + v.toNat := by
    rw [UInt64.toNat_ofNat']
    exact Nat.mod_eq_of_lt (by omega)
  have hhigh : (UInt64.ofNat (u.toNat * 2 ^ 32 + v.toNat) >>> 32).toUInt32 = u := by
    apply UInt32.toNat_inj.mp
    rw [UInt64.toNat_toUInt32, UInt64.toNat_shiftRight, hn]
    simp only [UInt64.reduceToNat, Nat.reduceMod, Nat.shiftRight_eq_div_pow]
    omega
  have hlow : (UInt64.ofNat (u.toNat * 2 ^ 32 + v.toNat)).toUInt32 = v := by
    apply UInt32.toNat_inj.mp
    rw [UInt64.toNat_toUInt32, hn]
    omega
  rw [be64, hhigh, hlow]

/-- A part that is there when its flag is set. -/
private theorem some_part {γ : Type} {x : Bytes} {c : Bool} {k : ℕ} {bytes : γ → Bytes}
    [Inhabited γ] (hsome : ∀ y : Bytes, y.length = k → ∃ v, y = bytes v)
    (h : x.length = if c then k else 0) : ∃ v, x = if c then bytes v else [] := by
  cases c with
  | true => exact hsome x h
  | false => exact ⟨default, List.length_eq_zero_iff.mp h⟩

private theorem cut_at {x : Bytes} {k : ℕ} (h : k ≤ x.length) :
    ∃ y z, x = y ++ z ∧ y.length = k :=
  ⟨x.take k, x.drop k, (List.take_append_drop k x).symm, List.length_take_of_le h⟩

/-- Bytes of the right number are the parts that the flags announce. -/
private theorem some_parts {flags : UInt32} {x : Bytes} (h : x.length + 4 = extendedAt flags) :
    ∃ (size : UInt64) (owner : UInt32 × UInt32) (permissions : UInt32) (times : UInt32 × UInt32),
      x = (if hasAttr flags sshFilexferAttrSize then be64 size else []) ++
        ((if hasAttr flags sshFilexferAttrUidgid then be32 owner.1 ++ be32 owner.2 else []) ++
        ((if hasAttr flags sshFilexferAttrPermissions then be32 permissions else []) ++
        (if hasAttr flags sshFilexferAttrAcmodtime then be32 times.1 ++ be32 times.2
          else []))) := by
  have hpair : ∀ y : Bytes, y.length = 8 → ∃ v : UInt32 × UInt32, y = be32 v.1 ++ be32 v.2 := by
    intro y hy
    obtain ⟨u, v, huv⟩ := some_words hy
    exact ⟨(u, v), huv⟩
  simp only [extendedAt, timesAt] at h
  obtain ⟨x₁, x₂, rfl, h₁⟩ := @cut_at x (if hasAttr flags sshFilexferAttrSize then 8 else 0)
    (by omega)
  rw [List.length_append] at h
  obtain ⟨x₃, x₄, rfl, h₃⟩ := @cut_at x₂ (if hasAttr flags sshFilexferAttrUidgid then 8 else 0)
    (by omega)
  rw [List.length_append] at h
  obtain ⟨x₅, x₆, rfl, h₅⟩ := @cut_at x₄
    (if hasAttr flags sshFilexferAttrPermissions then 4 else 0) (by omega)
  rw [List.length_append] at h
  have h₆ : x₆.length = if hasAttr flags sshFilexferAttrAcmodtime then 8 else 0 := by omega
  obtain ⟨size, hsize⟩ := some_part (fun _ => some_long) h₁
  obtain ⟨owner, howner⟩ := some_part hpair h₃
  obtain ⟨permissions, hpermissions⟩ := some_part (fun _ => some_word) h₅
  obtain ⟨times, htimes⟩ := some_part hpair h₆
  exact ⟨size, owner, permissions, times, by rw [← hsize, ← howner, ← hpermissions, ← htimes]⟩

/-- A structure whose parts up to the extended pairs are there. -/
private theorem some_attrs {d : Bytes} {flags : UInt32} {extended : List (Bytes × Bytes)}
    (hflags : read32 d = some flags) (hlen : extendedAt flags ≤ d.length)
    (hcount : extended.length < 2 ^ 32)
    (hshort : ∀ p ∈ extended, p.1.length < 2 ^ 32 ∧ p.2.length < 2 ^ 32) :
    ∃ a : Attrs, a.encode = d.take (extendedAt flags) ++
      (if hasAttr flags sshFilexferAttrExtended then
        be32 (UInt32.ofNat extended.length) ++ pairBytes extended else []) := by
  have hfour : 4 ≤ extendedAt flags := by
    unfold extendedAt timesAt
    omega
  obtain ⟨size, owner, permissions, times, hparts⟩ :=
    @some_parts flags ((d.drop 4).take (extendedAt flags - 4)) (by
      rw [List.length_take, List.length_drop]
      omega)
  have htake : d.take (extendedAt flags) =
      be32 flags ++ (d.drop 4).take (extendedAt flags - 4) := by
    conv_lhs => rw [be32_of_read32 hflags]
    rw [List.take_append, List.take_of_length_le (by simpa using hfour), be32_length]
  refine ⟨⟨flags, size, owner.1, owner.2, permissions, times.1, times.2, extended, hcount,
    hshort⟩, ?_⟩
  rw [htake, hparts]
  simp only [Attrs.encode, List.append_assoc]

/-- A size is found only where a structure is. -/
theorem attrsSize_eq_some {d : Bytes} {n : ℕ} (h : attrsSize d = some n) :
    ∃ (a : Attrs) (rest : Bytes), d = a.encode ++ rest ∧ a.encode.length = n := by
  unfold attrsSize at h
  split at h
  · simp at h
  rename_i flags hflags
  split_ifs at h with hlen hext
  · split at h
    · simp at h
    rename_i count hcount
    obtain ⟨m, hpairs, rfl⟩ := Option.map_eq_some_iff.mp h
    obtain ⟨l, hl, hshort, rfl, hd⟩ := stringsSize_eq_some hpairs
    have hlt : l.length < 2 ^ 32 := hl ▸ count.toNat_lt
    obtain ⟨a, ha⟩ := some_attrs hflags (Nat.le_of_not_lt hlen) hlt hshort
    rw [if_pos hext, hl, UInt32.ofNat_toNat] at ha
    refine ⟨a, d.drop (extendedAt flags + 4 + (pairBytes l).length), ?_, ?_⟩
    · have hword := be32_of_read32 hcount
      rw [List.drop_drop] at hword hd
      calc d = d.take (extendedAt flags) ++ d.drop (extendedAt flags) :=
            (List.take_append_drop _ d).symm
        _ = d.take (extendedAt flags) ++ (be32 count ++ (pairBytes l ++
            d.drop (extendedAt flags + 4 + (pairBytes l).length))) := by rw [← hd, ← hword]
        _ = _ := by rw [ha]; simp only [List.append_assoc]
    · rw [ha]
      simp only [List.length_append, List.length_take, be32_length]
      omega
  · obtain rfl := Option.some.inj h
    obtain ⟨a, ha⟩ := @some_attrs d flags [] hflags (Nat.le_of_not_lt hlen) (by decide) (by simp)
    rw [if_neg hext, List.append_nil] at ha
    refine ⟨a, d.drop (extendedAt flags), ?_, ?_⟩
    · rw [ha, List.take_append_drop]
    · rw [ha, List.length_take]
      omega

end Gftp.AttrsLayout
