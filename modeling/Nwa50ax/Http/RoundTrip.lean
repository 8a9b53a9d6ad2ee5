import Nwa50ax.Http.Frame

/-!
# Decoding an encoded form

A form is a list of parts; its `multipart/form-data` encoding separates them by
a delimiter line.  The parser splits the payload at the delimiters, which cannot
occur anywhere else, and then takes each part apart.  Both passes write zeros
into the payload; `splitImage` and `parsedImage` are what they leave there.
-/

namespace Nwa50ax.Http

open CString StateProgram

/-! ## Encoding -/

structure FormPart where
  name : List UInt8
  filename : Option (List UInt8)
  content : List UInt8
deriving DecidableEq

def dispositionStr : List UInt8 := ascii "Content-Disposition: form-data; "

def FormPart.fileHeader (part : FormPart) : List UInt8 :=
  match part.filename with
  | none => []
  | some filename => ascii "; " ++ filenameStr ++ quote :: (filename ++ [quote])

def FormPart.header (part : FormPart) : List UInt8 :=
  dispositionStr ++ nameStr ++ quote :: (part.name ++ quote :: part.fileHeader)

def FormPart.body (part : FormPart) : List UInt8 :=
  part.header ++ (crlf ++ crlf) ++ part.content

def encodeForm (delim epilogue : List UInt8) : List FormPart → List UInt8
  | [] => delim ++ (ascii "--" ++ epilogue)
  | part :: parts => delim ++ crlf ++ part.body ++ crlf ++ encodeForm delim epilogue parts

structure Quotable (delim text : List UInt8) : Prop where
  quote : quote ∉ text
  cr : carriageReturn ∉ text
  lf : 10 ∉ text
  zero : 0 ∉ text
  delim : ¬delim <:+: text

structure FormPart.Encodable (delim : List UInt8) (part : FormPart) : Prop where
  name : Quotable delim part.name
  noFilename : ¬filenameStr <:+: part.name
  filename : ∀ filename ∈ part.filename, Quotable delim filename
  content : ¬delim <:+: part.content

/-! ## Splitting -/

/-- The payload after it has been split: the line end in front of each delimiter
is cut off. -/
def splitImage (delim epilogue : List UInt8) : List FormPart → List UInt8
  | [] => delim ++ (ascii "--" ++ epilogue)
  | part :: parts => delim ++ crlf ++ part.body ++ 0 :: 10 :: splitImage delim epilogue parts

def formdataOf (delim : List UInt8) (off : ℕ) : List FormPart → List Formdata
  | [] => []
  | part :: parts =>
      let start := off + delim.length + 2
      ⟨start, start + part.body.length⟩ ::
        formdataOf delim (start + part.body.length + 2) parts

/-- A delimiter: it begins with two dashes and has none of the symbols that end
a line or a quotation. -/
structure Delimiter (delim : List UInt8) : Prop where
  ne_nil : delim ≠ []
  quote : quote ∉ delim
  cr : carriageReturn ∉ delim
  lf : 10 ∉ delim
  dashes : ascii "--" <+: delim

section Split

variable {delim epilogue : List UInt8} {part : FormPart}

theorem Delimiter.not_infix (hdelim : Delimiter delim) {text : List UInt8}
    (h : ¬ascii "--" <:+: text) : ¬delim <:+: text :=
  fun hin => h (hdelim.dashes.isInfix.trans hin)

theorem find_fileHeader (hdelim : Delimiter delim) (h : part.Encodable delim) :
    find delim part.fileHeader = none := by
  unfold FormPart.fileHeader
  cases hname : part.filename with
  | none => exact find_nil hdelim.ne_nil
  | some filename =>
      have hkey : find delim (ascii "; " ++ filenameStr) = none := by
        rw [find_eq_none hdelim.ne_nil]
        exact hdelim.not_infix (by decide)
      have hfile : find delim filename = none := by
        rw [find_eq_none hdelim.ne_nil]
        exact (h.filename filename hname).delim
      show find delim (ascii "; " ++ filenameStr ++ quote :: (filename ++ [quote])) = none
      rw [find_append_cons hdelim.quote hdelim.ne_nil hkey,
        find_append_cons hdelim.quote hdelim.ne_nil hfile, find_nil hdelim.ne_nil]
      rfl

theorem find_header (hdelim : Delimiter delim) (h : part.Encodable delim) :
    find delim part.header = none := by
  have hkey : find delim (dispositionStr ++ nameStr) = none := by
    rw [find_eq_none hdelim.ne_nil]
    exact hdelim.not_infix (by decide)
  have hname : find delim part.name = none := by
    rw [find_eq_none hdelim.ne_nil]
    exact h.name.delim
  unfold FormPart.header
  rw [find_append_cons hdelim.quote hdelim.ne_nil hkey,
    find_append_cons hdelim.quote hdelim.ne_nil hname, find_fileHeader hdelim h]
  rfl

theorem find_line (hdelim : Delimiter delim) {line : List UInt8} (hnone : find delim line = none)
    (rest : List UInt8) :
    find delim (line ++ crlf ++ rest) = (find delim rest).map (line.length + 2 + ·) := by
  have hcr := find_append_cons hdelim.cr hdelim.ne_nil hnone (10 :: rest)
  have hlf := find_append_cons hdelim.lf hdelim.ne_nil (find_nil hdelim.ne_nil) rest
  rw [List.nil_append] at hlf
  rw [hlf, Option.map_map] at hcr
  rw [List.append_assoc]
  refine hcr.trans (congrArg (fun f => (find delim rest).map f) (funext fun i => ?_))
  simp only [Function.comp, List.length_nil]
  omega

theorem find_body (hdelim : Delimiter delim) (h : part.Encodable delim) (rest : List UInt8) :
    find delim (part.body ++ crlf ++ (delim ++ rest)) = some (part.body.length + 2) := by
  have hcontent : find delim part.content = none := by
    rw [find_eq_none hdelim.ne_nil]
    exact h.content
  have hself : find delim (delim ++ rest) = some 0 :=
    find_eq_some.mpr ⟨Nat.zero_le _, List.prefix_append .., by simp⟩
  have hlines : part.body ++ crlf ++ (delim ++ rest) =
      part.header ++ crlf ++ ([] ++ crlf ++ (part.content ++ crlf ++ (delim ++ rest))) := by
    simp [FormPart.body]
  rw [hlines, find_line hdelim (find_header hdelim h),
    find_line hdelim (find_nil hdelim.ne_nil), find_line hdelim hcontent, hself]
  simp only [Option.map_some, Option.some.injEq, FormPart.body, List.length_append,
    List.length_nil, crlf_length]
  omega

theorem ptrDiff_toNat {a b : ℕ} (hle : b ≤ a) (ha : a < 2 ^ 32) : (ptrDiff a b).toNat = a - b := by
  have hcast : ((a : ℤ) - b) = ((a - b : ℕ) : ℤ) := by omega
  unfold ptrDiff
  rw [hcast, BitVec.ofInt_natCast, BitVec.toNat_ofNat, Nat.mod_eq_of_lt (by omega)]

theorem agree_at (a rest : List UInt8) {mem pat : List UInt8} {p : ℕ}
    (h : mem = a ++ (pat ++ rest)) (hp : p = a.length) : agree mem p pat = some true := by
  refine agree_true ?_
  rw [h, hp, List.drop_left]
  exact List.prefix_append ..

/-- One round of the loop that splits the payload.  The delimiter in front of
the part is skipped without being looked at. -/
theorem splitFormdata_body (hne : delim ≠ []) (past opening body rest : List UInt8)
    (hopening : opening.length = delim.length)
    (hfind : find delim (body ++ crlf ++ (delim ++ rest)) = some (body.length + 2))
    {payload : List UInt8}
    (hpayload : payload = past ++ (opening ++ crlf ++ body ++ crlf ++ (delim ++ rest)))
    (hsize : payload.length < 2 ^ 32) :
    splitFormdata delim payload.length (payload ++ [0]) past.length =
      .ok (some (⟨past.length + delim.length + 2, past.length + delim.length + 2 + body.length⟩,
        past.length + delim.length + 2 + body.length + 2,
        past ++ (opening ++ crlf ++ body ++ 0 :: 10 :: (delim ++ rest)) ++ [0])) := by
  have hlen : payload.length = past.length + delim.length + 2 + body.length + 2 +
      (delim ++ rest).length := by
    rw [hpayload]
    simp only [List.length_append, crlf_length, hopening]
    omega
  have hmore : agree (payload ++ [0]) (past.length + delim.length) crlf = some true :=
    agree_at (past ++ opening) (body ++ crlf ++ (delim ++ rest) ++ [0])
      (by simp [hpayload]) (by simp [hopening])
  have hfound : memstr (payload ++ [0]) delim (past.length + delim.length + 2)
      (ptrDiff payload.length (past.length + delim.length + 2)).toNat =
        some (some (past.length + delim.length + 2 + (body.length + 2))) := by
    rw [ptrDiff_toNat (by omega) hsize, memstr_eq hne _ (by simp; omega)]
    have hrest : ((payload ++ [0]).drop (past.length + delim.length + 2)).take
        (payload.length - (past.length + delim.length + 2)) =
          body ++ crlf ++ (delim ++ rest) := by
      rw [List.drop_append_of_le_length (by omega), List.take_left' (by simp)]
      rw [hpayload, show past ++ (opening ++ crlf ++ body ++ crlf ++ (delim ++ rest)) =
        (past ++ opening ++ crlf) ++ (body ++ crlf ++ (delim ++ rest)) by simp]
      exact List.drop_left' (by simp only [List.length_append, crlf_length, hopening])
    rw [hrest, hfind]
    rfl
  have hended : agree (payload ++ [0])
      (past.length + delim.length + 2 + (body.length + 2) - 2) crlf = some true :=
    agree_at (past ++ opening ++ crlf ++ body) (delim ++ rest ++ [0])
      (by simp [hpayload]) (by
        simp only [List.length_append, crlf_length, hopening]
        omega)
  have hstore : store (payload ++ [0])
      (past.length + delim.length + 2 + (body.length + 2) - 2) 0 =
        some (past ++ (opening ++ crlf ++ body ++ 0 :: 10 :: (delim ++ rest)) ++ [0]) := by
    have hset := store_append (past ++ opening ++ crlf ++ body) (10 :: (delim ++ rest) ++ [0])
      13 0
    have hpos : (past ++ opening ++ crlf ++ body).length =
        past.length + delim.length + 2 + (body.length + 2) - 2 := by
      simp only [List.length_append, crlf_length, hopening]
      omega
    rw [hpos] at hset
    rw [hpayload]
    refine Eq.trans (congrArg (fun mem => store mem _ 0) ?_) (hset.trans ?_)
    · simp [crlf, ascii]
    · simp
  unfold splitFormdata
  simp only [hmore, hfound, hended, hstore, inside_some, ok_bind, if_true]
  rfl

theorem splitFormdata_closing (past : List UInt8) {payload : List UInt8}
    (hpayload : payload = past ++ (delim ++ (ascii "--" ++ epilogue))) :
    splitFormdata delim payload.length (payload ++ [0]) past.length = .ok none := by
  have hdash : (payload ++ [0])[past.length + delim.length]? = some 45 := by
    rw [hpayload, show past ++ (delim ++ (ascii "--" ++ epilogue)) ++ [0] =
      (past ++ delim) ++ (ascii "--" ++ epilogue ++ [0]) by simp,
      List.getElem?_append_right (by simp)]
    simp [ascii]
  have hmore : agree (payload ++ [0]) (past.length + delim.length) crlf = some false :=
    agree_of_ne hdash (by decide)
  unfold splitFormdata
  simp only [hmore, inside_some, ok_bind]
  rfl

theorem encodeForm_eq (delim epilogue : List UInt8) (parts : List FormPart) :
    ∃ rest, encodeForm delim epilogue parts = delim ++ rest := by
  cases parts with
  | nil => exact ⟨_, rfl⟩
  | cons part parts =>
      refine ⟨crlf ++ part.body ++ crlf ++ encodeForm delim epilogue parts, ?_⟩
      simp [encodeForm]

theorem splitAll_parts (hdelim : Delimiter delim) (parts : List FormPart) :
    ∀ (count : ℕ) (past : List UInt8) {payload : List UInt8},
      (∀ part ∈ parts, part.Encodable delim) → parts.length ≤ count →
      payload = past ++ encodeForm delim epilogue parts → payload.length < 2 ^ 32 →
      splitAll delim payload.length count (payload ++ [0]) past.length =
        .ok (formdataOf delim past.length parts, past ++ splitImage delim epilogue parts ++ [0]) := by
  induction parts with
  | nil =>
      intro count past payload _ _ hpayload _
      cases count with
      | zero =>
          rw [hpayload]
          rfl
      | succ count =>
          unfold splitAll
          rw [splitFormdata_closing past hpayload, hpayload]
          rfl
  | cons part parts ih =>
      intro count past payload hparts hcount hpayload hsize
      obtain ⟨count, rfl⟩ : ∃ n, count = n + 1 := ⟨count - 1, by simp at hcount; omega⟩
      obtain ⟨rest, hrest⟩ := encodeForm_eq delim epilogue parts
      have hfirst := splitFormdata_body hdelim.ne_nil past delim part.body rest rfl
        (find_body hdelim (hparts part (by simp)) rest) (by rw [hpayload, encodeForm, hrest]) hsize
      -- the memory after one round is the encoding of the rest behind a longer past
      let past' := past ++ (delim ++ crlf ++ part.body ++ [0, 10])
      have hlength : past'.length = past.length + delim.length + 2 + part.body.length + 2 := by
        simp only [past', List.length_append, crlf_length, List.length_cons, List.length_nil]
        omega
      have hmem : past ++ (delim ++ crlf ++ part.body ++ 0 :: 10 :: (delim ++ rest)) ++ [0] =
          past' ++ encodeForm delim epilogue parts ++ [0] := by
        rw [hrest]
        simp [past']
      have hsame : (past' ++ encodeForm delim epilogue parts).length = payload.length := by
        rw [hpayload, encodeForm]
        simp only [past', List.length_append, crlf_length, List.length_cons, List.length_nil]
        omega
      have hnext := ih count past' (fun d hd => hparts d (by simp [hd])) (by simpa using hcount)
        rfl (by rw [hsame]; exact hsize)
      rw [hsame, hlength] at hnext
      unfold splitAll
      rw [hfirst, ok_bind, hmem]
      simp only [hnext, ok_bind]
      simp [formdataOf, splitImage, past']
      rfl

end Split

/-! ## Taking the parts apart -/

def FormPart.fileImage (part : FormPart) : List UInt8 :=
  match part.filename with
  | none => []
  | some filename => ascii "; " ++ filenameStr ++ quote :: (filename ++ [0])

def FormPart.headerImage (part : FormPart) : List UInt8 :=
  dispositionStr ++ nameStr ++ quote :: (part.name ++ 0 :: part.fileImage)

/-- A part after it has been processed: zeros end its names and its header. -/
def FormPart.bodyImage (part : FormPart) : List UInt8 :=
  part.headerImage ++ 0 :: 10 :: (crlf ++ part.content)

def FormPart.value (start : ℕ) (part : FormPart) : FormValue ℕ where
  name := some (start + (dispositionStr ++ nameStr).length + 1)
  filename := part.filename.map fun _ =>
    start + (dispositionStr ++ nameStr).length + 1 + part.name.length + 1 +
      (ascii "; " ++ filenameStr).length + 1
  data := start + part.header.length + 4
  size := BitVec.ofNat 32 part.content.length

section Process

variable {delim : List UInt8} {part : FormPart}

theorem nameExtract_quoted (a name rest : List UInt8) {mem : List UInt8} {s : ℕ}
    (hmem : mem = a ++ quote :: (name ++ quote :: rest)) (hs : s = a.length)
    (hquote : quote ∉ name) (hzero : 0 ∉ name) :
    nameExtract mem s = .ok (a.length + 1, a ++ quote :: (name ++ 0 :: rest)) := by
  subst hmem hs
  have hquoted : agree (a ++ quote :: (name ++ quote :: rest)) a.length [quote] = some true :=
    agree_at a (name ++ quote :: rest) rfl rfl
  have hdrop : (a ++ quote :: (name ++ quote :: rest)).drop (a.length + 1) =
      name ++ quote :: rest := by
    rw [show a ++ quote :: (name ++ quote :: rest) = (a ++ [quote]) ++ (name ++ quote :: rest) by simp]
    exact List.drop_left' (by simp)
  have hend := strchr_append hquote hzero hdrop
  have hstore := store_append (a ++ quote :: name) rest quote 0
  have hpos : (a ++ quote :: name).length = a.length + 1 + name.length := by
    simp
    omega
  rw [hpos, show a ++ quote :: name ++ quote :: rest = a ++ quote :: (name ++ quote :: rest) by simp,
    show a ++ quote :: name ++ 0 :: rest = a ++ quote :: (name ++ 0 :: rest) by simp] at hstore
  unfold nameExtract
  simp only [hquoted, inside_some, ok_bind, if_true, hend, hstore]
  rfl

theorem not_mem_header {c : UInt8} (hkey : c ∉ dispositionStr ++ nameStr)
    (hfileKey : c ∉ ascii "; " ++ filenameStr) (hquote : c ≠ quote) (hname : c ∉ part.name)
    (hfilename : ∀ filename ∈ part.filename, c ∉ filename) : c ∉ part.header := by
  have hfile : c ∉ part.fileHeader := by
    unfold FormPart.fileHeader
    split
    · simp
    · rename_i filename hsome
      have hc := hfilename filename hsome
      simp only [List.mem_append, List.mem_cons, List.not_mem_nil, or_false, not_or] at hfileKey ⊢
      exact ⟨hfileKey, hquote, hc, hquote⟩
  unfold FormPart.header
  simp only [List.mem_append, List.mem_cons, not_or] at hkey ⊢
  exact ⟨hkey, hquote, hname, hquote, hfile⟩

theorem FormPart.Encodable.header_zero (h : part.Encodable delim) : 0 ∉ part.header :=
  not_mem_header (by decide) (by decide) (by decide) h.name.zero
    fun filename hsome => (h.filename filename hsome).zero

theorem FormPart.Encodable.header_cr (h : part.Encodable delim) : 13 ∉ part.header :=
  not_mem_header (by decide) (by decide) (by decide) h.name.cr
    fun filename hsome => (h.filename filename hsome).cr

theorem find_nameStr (part : FormPart) :
    find nameStr part.header = some dispositionStr.length := by
  have hkey : find nameStr (dispositionStr ++ nameStr) = some dispositionStr.length := by decide
  exact find_append hkey _

theorem find_filenameStr (h : part.Encodable delim) :
    find filenameStr part.header = part.filename.map fun _ =>
      (dispositionStr ++ nameStr).length + 1 + (part.name.length + 1 + 2) := by
  have hne : filenameStr ≠ [] := by decide
  have hquote : quote ∉ filenameStr := by decide
  have hkey : find filenameStr (dispositionStr ++ nameStr) = none := by decide
  have hname : find filenameStr part.name = none := (find_eq_none hne).mpr h.noFilename
  have hfile : find filenameStr part.fileHeader = part.filename.map fun _ => 2 := by
    unfold FormPart.fileHeader
    split
    · rename_i hnone
      rw [hnone, find_nil hne]
      rfl
    · rename_i filename hsome
      have hkey : find filenameStr (ascii "; " ++ filenameStr) = some 2 := by decide
      rw [hsome, find_append hkey]
      rfl
  unfold FormPart.header
  rw [find_append_cons hquote hne hkey, find_append_cons hquote hne hname, hfile, Option.map_map,
    Option.map_map]
  rfl

theorem extractAfter_filename (h : part.Encodable delim) (past rest : List UInt8) :
    extractAfter (past ++ (part.fileHeader ++ rest)) filenameStr
        (part.filename.map fun _ => past.length + 2) =
      .ok (part.filename.map fun _ => past.length + (ascii "; " ++ filenameStr).length + 1,
        past ++ (part.fileImage ++ rest)) := by
  unfold FormPart.fileHeader FormPart.fileImage
  cases hsome : part.filename with
  | none => rfl
  | some filename =>
      have hfile := h.filename filename hsome
      have hlength : past.length + 2 + filenameStr.length =
          (past ++ (ascii "; " ++ filenameStr)).length := by
        rw [List.length_append, Nat.add_assoc]
        rfl
      have hextract : nameExtract
          (past ++ (ascii "; " ++ filenameStr ++ quote :: (filename ++ [quote]) ++ rest))
          (past.length + 2 + filenameStr.length) =
            .ok ((past ++ (ascii "; " ++ filenameStr)).length + 1,
              past ++ (ascii "; " ++ filenameStr) ++ quote :: (filename ++ 0 :: rest)) :=
        nameExtract_quoted _ filename rest (by simp) hlength hfile.quote hfile.zero
      show (nameExtract _ (past.length + 2 + filenameStr.length) >>= fun r =>
        .ok (some r.1, r.2)) = _
      rw [hextract, ok_bind, List.length_append]
      simp

theorem processFormdata_part (h : part.Encodable delim) (past rest : List UInt8) {mem : List UInt8}
    (hmem : mem = past ++ (part.body ++ 0 :: rest)) :
    processFormdata mem ⟨past.length, past.length + part.body.length⟩ =
      .ok (some (part.value past.length), past ++ (part.bodyImage ++ 0 :: rest)) := by
  have hzero : 0 ∉ part.header ++ (crlf ++ crlf) := by
    simp only [List.mem_append, not_or]
    exact ⟨h.header_zero, by decide, by decide⟩
  have hdrop : mem.drop past.length =
      (part.header ++ (crlf ++ crlf)) ++ (part.content ++ 0 :: rest) := by
    rw [hmem, List.drop_left]
    simp [FormPart.body]
  obtain ⟨s, hstring⟩ := stringAt_begins hzero (by simp) hdrop
  have hend : strstr mem past.length (crlf ++ crlf) =
      some (some (past.length + part.header.length)) := by
    rw [strstr_eq hstring]
    have hfound : find (crlf ++ crlf) (part.header ++ (crlf ++ crlf) ++ s) =
        some part.header.length :=
      find_append_self [10, 13, 10] h.header_cr s
    rw [hfound]
    rfl
  have hstore : store mem (past.length + part.header.length) 0 =
      some (past ++ (part.header ++ 0 :: 10 :: (crlf ++ part.content ++ 0 :: rest))) := by
    have hset := store_append (past ++ part.header) (10 :: (crlf ++ part.content ++ 0 :: rest)) 13 0
    rw [List.length_append] at hset
    rw [hmem]
    refine Eq.trans (congrArg (fun mem => store mem _ 0) ?_) (hset.trans ?_)
    · simp [FormPart.body, crlf, ascii]
    · simp
  let mem₂ := past ++ (part.header ++ 0 :: 10 :: (crlf ++ part.content ++ 0 :: rest))
  have hheader : stringAt mem₂ past.length = some part.header :=
    stringAt_append h.header_zero (List.drop_left ..)
  have hname : nameExtract mem₂ (past.length + dispositionStr.length + nameStr.length) =
      .ok ((past ++ (dispositionStr ++ nameStr)).length + 1,
        past ++ (dispositionStr ++ nameStr) ++ quote :: (part.name ++ 0 ::
          (part.fileHeader ++ 0 :: 10 :: (crlf ++ part.content ++ 0 :: rest)))) :=
    nameExtract_quoted (past ++ (dispositionStr ++ nameStr)) part.name
      (part.fileHeader ++ 0 :: 10 :: (crlf ++ part.content ++ 0 :: rest))
      (by simp [mem₂, FormPart.header]) (by simp; omega) h.name.quote h.name.zero
  have hfile := extractAfter_filename h
    (past ++ (dispositionStr ++ nameStr) ++ quote :: (part.name ++ [0]))
    (0 :: 10 :: (crlf ++ part.content ++ 0 :: rest))
  have hsize : ptrDiff (past.length + part.body.length) (past.length + part.header.length + 4) =
      BitVec.ofNat 32 part.content.length := by
    have hdiff : ((past.length + part.body.length : ℕ) : ℤ) -
        (past.length + part.header.length + 4 : ℕ) = (part.content.length : ℕ) := by
      simp [FormPart.body]
      omega
    unfold ptrDiff
    rw [hdiff, BitVec.ofInt_natCast]
  have hmem₃ : past ++ (dispositionStr ++ nameStr) ++ quote :: (part.name ++ 0 ::
      (part.fileHeader ++ 0 :: 10 :: (crlf ++ part.content ++ 0 :: rest))) =
        past ++ (dispositionStr ++ nameStr) ++ quote :: (part.name ++ [0]) ++
          (part.fileHeader ++ 0 :: 10 :: (crlf ++ part.content ++ 0 :: rest)) := by
    simp
  have hfilePos : (find filenameStr part.header).map (past.length + ·) =
      part.filename.map fun _ =>
        (past ++ (dispositionStr ++ nameStr) ++ quote :: (part.name ++ [0])).length + 2 := by
    rw [find_filenameStr h, Option.map_map]
    congr 1
    funext _
    simp
    omega
  unfold processFormdata
  simp only [hend, hstore, inside_some, ok_bind]
  rw [strstr_eq hheader, strstr_eq hheader, find_nameStr, inside_some, inside_some, ok_bind, ok_bind,
    hfilePos]
  show ((nameExtract mem₂ (past.length + dispositionStr.length + nameStr.length) >>= fun r =>
    Except.ok (some r.1, r.2)) >>= _) = _
  rw [hname, ok_bind, ok_bind]
  dsimp only
  rw [hmem₃, hfile, ok_bind, hsize]
  have hnamePos : (past ++ (dispositionStr ++ nameStr)).length =
      past.length + (dispositionStr ++ nameStr).length :=
    List.length_append
  have hlength : (past ++ (dispositionStr ++ nameStr) ++ quote :: (part.name ++ [0])).length =
      past.length + (dispositionStr ++ nameStr).length + 1 + part.name.length + 1 := by
    simp only [List.length_append, List.length_cons, List.length_nil]
    omega
  have hdone : past ++ (dispositionStr ++ nameStr) ++ quote :: (part.name ++ [0]) ++
      (part.fileImage ++ 0 :: 10 :: (crlf ++ part.content ++ 0 :: rest)) =
        past ++ (part.bodyImage ++ 0 :: rest) := by
    simp [FormPart.bodyImage, FormPart.headerImage]
  rw [hdone, hlength, hnamePos]
  rfl

def parsedImage (delim epilogue : List UInt8) : List FormPart → List UInt8
  | [] => delim ++ (ascii "--" ++ epilogue)
  | part :: parts => delim ++ crlf ++ part.bodyImage ++ 0 :: 10 :: parsedImage delim epilogue parts

def valuesOf (delim : List UInt8) (off : ℕ) : List FormPart → List (FormValue ℕ)
  | [] => []
  | part :: parts =>
      let start := off + delim.length + 2
      part.value start :: valuesOf delim (start + part.body.length + 2) parts

theorem FormPart.bodyImage_length (part : FormPart) : part.bodyImage.length = part.body.length := by
  have hfile : part.fileImage.length = part.fileHeader.length := by
    unfold FormPart.fileImage FormPart.fileHeader
    split <;> simp
  simp [FormPart.bodyImage, FormPart.headerImage, FormPart.body, FormPart.header, hfile]
  omega

theorem processAll_parts (parts : List FormPart) (epilogue : List UInt8) :
    ∀ past : List UInt8, (∀ part ∈ parts, part.Encodable delim) →
      processAll (formdataOf delim past.length parts)
          (past ++ splitImage delim epilogue parts ++ [0]) =
        .ok (valuesOf delim past.length parts, past ++ parsedImage delim epilogue parts ++ [0]) := by
  induction parts with
  | nil =>
      intro past _
      rfl
  | cons part parts ih =>
      intro past hparts
      have hstart : (past ++ delim ++ crlf).length = past.length + delim.length + 2 := by
        simp only [List.length_append, crlf_length]
      have hsplit : past ++ splitImage delim epilogue (part :: parts) ++ [0] =
          past ++ delim ++ crlf ++ (part.body ++ 0 :: (10 :: (splitImage delim epilogue parts ++ [0]))) := by
        simp [splitImage]
      have hone := processFormdata_part (hparts part (by simp)) (past ++ delim ++ crlf)
        (10 :: (splitImage delim epilogue parts ++ [0])) hsplit
      rw [hstart] at hone
      -- what is left is the split image of the other parts behind a longer past
      let past' := past ++ delim ++ crlf ++ part.bodyImage ++ [0, 10]
      have hmem : past ++ delim ++ crlf ++ (part.bodyImage ++ 0 ::
          (10 :: (splitImage delim epilogue parts ++ [0]))) =
            past' ++ splitImage delim epilogue parts ++ [0] := by
        simp [past']
      have hlength : past'.length = past.length + delim.length + 2 + part.body.length + 2 := by
        simp only [past', List.length_append, crlf_length, part.bodyImage_length, List.length_cons,
          List.length_nil]
      have hnext := ih past' fun d hd => hparts d (by simp [hd])
      rw [hlength] at hnext
      rw [hmem] at hone
      show (processFormdata (past ++ splitImage delim epilogue (part :: parts) ++ [0])
        ⟨past.length + delim.length + 2, past.length + delim.length + 2 + part.body.length⟩ >>=
          fun r => processAll (formdataOf delim
            (past.length + delim.length + 2 + part.body.length + 2) parts) r.2 >>= fun r' =>
              Except.ok (r.1.toList ++ r'.1, r'.2)) = _
      rw [hone, ok_bind, hnext, ok_bind]
      simp [valuesOf, parsedImage, past']

/-- A form value denotes a part: its pointers lead to the name, the file name
and the content of the part. -/
structure FormValue.Denotes (mem : List UInt8) (value : FormValue ℕ) (part : FormPart) : Prop where
  name : value.name.map (stringAt mem) = some (some part.name)
  filename : value.filename.map (stringAt mem) = part.filename.map some
  size : value.size.toNat = part.content.length
  data : (mem.drop value.data).take value.size.toNat = part.content

theorem FormPart.value_denotes (h : part.Encodable delim) (past rest : List UInt8)
    {mem : List UInt8} (hmem : mem = past ++ (part.bodyImage ++ 0 :: rest))
    (hsize : part.content.length < 2 ^ 32) : (part.value past.length).Denotes mem part := by
  have htoNat : (BitVec.ofNat 32 part.content.length).toNat = part.content.length := by
    rw [BitVec.toNat_ofNat, Nat.mod_eq_of_lt hsize]
  refine ⟨?_, ?_, htoNat, ?_⟩
  · have hdrop : mem.drop (past.length + (dispositionStr ++ nameStr).length + 1) =
        part.name ++ 0 :: (part.fileImage ++ 0 :: 10 :: (crlf ++ part.content ++ 0 :: rest)) := by
      rw [hmem, show past ++ (part.bodyImage ++ 0 :: rest) =
        (past ++ (dispositionStr ++ nameStr) ++ [quote]) ++ (part.name ++ 0 ::
          (part.fileImage ++ 0 :: 10 :: (crlf ++ part.content ++ 0 :: rest))) by
            simp [FormPart.bodyImage, FormPart.headerImage]]
      exact List.drop_left' (by simp only [List.length_append, List.length_cons, List.length_nil])
    show some (stringAt mem (past.length + (dispositionStr ++ nameStr).length + 1)) = _
    rw [stringAt_append h.name.zero hdrop]
  · cases hsome : part.filename with
    | none => simp [FormPart.value, hsome]
    | some filename =>
        have hdrop : mem.drop (past.length + (dispositionStr ++ nameStr).length + 1 +
            part.name.length + 1 + (ascii "; " ++ filenameStr).length + 1) =
              filename ++ 0 :: (0 :: 10 :: (crlf ++ part.content ++ 0 :: rest)) := by
          rw [hmem, show past ++ (part.bodyImage ++ 0 :: rest) =
            (past ++ (dispositionStr ++ nameStr) ++ [quote] ++ part.name ++ [0] ++
              (ascii "; " ++ filenameStr) ++ [quote]) ++ (filename ++ 0 ::
                (0 :: 10 :: (crlf ++ part.content ++ 0 :: rest))) by
              simp [FormPart.bodyImage, FormPart.headerImage, FormPart.fileImage, hsome]]
          exact List.drop_left' (by
            simp only [List.length_append, List.length_cons, List.length_nil])
        simp only [FormPart.value, hsome, Option.map_some,
          stringAt_append (h.filename filename hsome).zero hdrop]
  · have hheader : part.headerImage.length = part.header.length := by
      have hlen := part.bodyImage_length
      simp only [FormPart.bodyImage, FormPart.body, List.length_append, List.length_cons,
        crlf_length] at hlen
      omega
    have hdrop : mem.drop (past.length + part.header.length + 4) = part.content ++ 0 :: rest := by
      rw [hmem, show past ++ (part.bodyImage ++ 0 :: rest) =
        (past ++ part.headerImage ++ 0 :: 10 :: crlf) ++ (part.content ++ 0 :: rest) by
          simp [FormPart.bodyImage]]
      exact List.drop_left' (by
        simp only [List.length_append, List.length_cons, hheader, crlf_length])
    show (mem.drop (past.length + part.header.length + 4)).take
      (BitVec.ofNat 32 part.content.length).toNat = _
    rw [hdrop, htoNat, List.take_left' rfl]

theorem valuesOf_denote (parts : List FormPart) (epilogue : List UInt8) :
    ∀ past : List UInt8, (∀ part ∈ parts, part.Encodable delim) →
      (∀ part ∈ parts, part.content.length < 2 ^ 32) →
      List.Forall₂ (FormValue.Denotes (past ++ parsedImage delim epilogue parts ++ [0]))
        (valuesOf delim past.length parts) parts := by
  induction parts with
  | nil => exact fun _ _ _ => .nil
  | cons part parts ih =>
      intro past hparts hsizes
      have hstart : (past ++ delim ++ crlf).length = past.length + delim.length + 2 := by
        simp only [List.length_append, crlf_length]
      have hmem : past ++ parsedImage delim epilogue (part :: parts) ++ [0] =
          past ++ delim ++ crlf ++
            (part.bodyImage ++ 0 :: (10 :: (parsedImage delim epilogue parts ++ [0]))) := by
        simp [parsedImage]
      have hone := part.value_denotes (hparts part (by simp)) (past ++ delim ++ crlf) _ hmem
        (hsizes part (by simp))
      rw [hstart] at hone
      let past' := past ++ delim ++ crlf ++ part.bodyImage ++ [0, 10]
      have hlength : past'.length = past.length + delim.length + 2 + part.body.length + 2 := by
        simp only [past', List.length_append, crlf_length, part.bodyImage_length, List.length_cons,
          List.length_nil]
      have hmem' : past' ++ parsedImage delim epilogue parts ++ [0] =
          past ++ parsedImage delim epilogue (part :: parts) ++ [0] := by
        simp [past', parsedImage]
      have hnext := ih past' (fun d hd => hparts d (by simp [hd])) fun d hd =>
        hsizes d (by simp [hd])
      rw [hlength, hmem'] at hnext
      exact .cons hone hnext

end Process

structure Announceable (boundary : List UInt8) : Prop where
  quote : quote ∉ boundary
  cr : carriageReturn ∉ boundary
  lf : 10 ∉ boundary
  zero : 0 ∉ boundary

theorem Announceable.delimiter {boundary : List UInt8} (h : Announceable boundary) :
    Delimiter (ascii "--" ++ boundary) := by
  have hdash : ∀ c : UInt8, c ∉ ascii "--" → c ∉ boundary → c ∉ ascii "--" ++ boundary := by
    intro c hc hb
    rw [List.mem_append, not_or]
    exact ⟨hc, hb⟩
  refine ⟨?_, hdash _ (by decide) h.quote, hdash _ (by decide) h.cr, hdash _ (by decide) h.lf,
    List.prefix_append ..⟩
  rw [ne_eq, List.append_eq_nil_iff, not_and_or]
  exact .inl (by decide)

theorem parsedImage_length (delim epilogue : List UInt8) (parts : List FormPart) :
    (parsedImage delim epilogue parts).length = (encodeForm delim epilogue parts).length := by
  induction parts with
  | nil => rfl
  | cons part parts ih =>
      simp only [parsedImage, encodeForm, List.length_append, List.length_cons, crlf_length,
        part.bodyImage_length, ih]
      omega

theorem content_length_le {delim epilogue : List UInt8} {parts : List FormPart} {part : FormPart}
    (h : part ∈ parts) : part.content.length ≤ (encodeForm delim epilogue parts).length := by
  induction parts with
  | nil => cases h
  | cons d parts ih =>
      unfold encodeForm
      simp only [List.length_append]
      rcases List.mem_cons.mp h with rfl | hlater
      · simp only [FormPart.body, List.length_append]
        omega
      · have hle := ih hlater
        omega

theorem parseForm_encodeForm {boundary : List UInt8} (hboundary : Announceable boundary)
    {parts : List FormPart} (hcount : parts.length ≤ maxFormValueItems)
    (hparts : ∀ part ∈ parts, part.Encodable (ascii "--" ++ boundary)) (epilogue : List UInt8)
    {payload : List UInt8} (hpayload : payload = encodeForm (ascii "--" ++ boundary) epilogue parts)
    (hsize : payload.length < 2 ^ 32) :
    ∃ values mem, parseForm boundary payload.length (payload ++ [0]) = .ok (values, mem) ∧
      mem.length = payload.length + 1 ∧ List.Forall₂ (FormValue.Denotes mem) values parts := by
  have hsplit := splitAll_parts hboundary.delimiter parts maxFormValueItems [] hparts hcount
    (hpayload.trans (List.nil_append _).symm) hsize
  have hprocess := processAll_parts parts epilogue [] hparts
  have hdenote := valuesOf_denote parts epilogue [] hparts fun part hpart =>
    (content_length_le hpart).trans_lt (hpayload ▸ hsize)
  refine ⟨_, _, ?_, ?_, hdenote⟩
  · unfold parseForm
    rw [show (0 : ℕ) = ([] : List UInt8).length from rfl, hsplit, ok_bind]
    exact hprocess
  · rw [List.nil_append, List.length_append, parsedImage_length, ← hpayload]
    rfl

/-! ## The request -/

section Memory

def Memory.HasString (memory : Memory) (text : List UInt8) (p : Ptr) : Prop :=
  memory.bytes p (text.length + 1) = text ++ [0]

structure FormValue.DenotesIn (memory : Memory) (value : FormValue Ptr) (part : FormPart) :
    Prop where
  name : ∃ p ∈ value.name, memory.HasString part.name p
  filename : Option.Rel memory.HasString part.filename value.filename
  size : value.size.toNat = part.content.length
  data : memory.bytes value.data value.size.toNat = part.content

theorem Memory.hasString_add {memory : Memory} {p : Ptr} {mem text : List UInt8}
    (h : memory.bytes p mem.length = mem) {off : ℕ} (hstring : stringAt mem off = some text) :
    memory.HasString text (p.add off) := by
  have hmem : 0 ∈ mem.drop off := by
    by_contra hnone
    simp [stringAt, hnone] at hstring
  obtain ⟨s, rest, -, hdrop, hs⟩ := stringAt_of_mem hmem
  obtain rfl : s = text := Option.some.inj (hs.symm.trans hstring)
  have hlen := congrArg List.length hdrop
  simp only [List.length_drop, List.length_append, List.length_cons] at hlen
  show memory.bytes (p.add off) (s.length + 1) = s ++ [0]
  rw [Memory.bytes_add h (by omega), hdrop, List.take_length_add_append]
  rfl

theorem FormValue.Denotes.at {memory : Memory} {p : Ptr} {mem : List UInt8}
    (h : memory.bytes p mem.length = mem) {value : FormValue ℕ} {part : FormPart}
    (hvalue : value.Denotes mem part) :
    (value.at p).DenotesIn memory part := by
  refine ⟨?_, ?_, hvalue.size, ?_⟩
  · obtain ⟨off, hname, hstring⟩ := Option.map_eq_some_iff.mp hvalue.name
    refine ⟨p.add off, ?_, Memory.hasString_add h hstring⟩
    simp [FormValue.at, hname]
  · have hfile := hvalue.filename
    cases hpart : part.filename with
    | none =>
        have hnone : value.filename = none := by simpa [hpart] using hfile
        simp only [FormValue.at, hnone, Option.map_none]
        exact .none
    | some filename =>
        rw [hpart, Option.map_some, Option.map_eq_some_iff] at hfile
        obtain ⟨off, hoff, hstring⟩ := hfile
        simp only [FormValue.at, hoff, Option.map_some]
        exact .some (Memory.hasString_add h hstring)
  · have hin := congrArg List.length hvalue.data
    rw [List.length_take, List.length_drop, ← hvalue.size] at hin
    show memory.bytes (p.add value.data) value.size.toNat = part.content
    rw [Memory.bytes_add h (by omega)]
    exact hvalue.data

end Memory

section Request

variable {τ ρ : Type} {server : Server τ ρ} {s : ℕ}

structure Server.Received (server : Server τ ρ) (s : ℕ) (boundary payload : List UInt8) :
    Prop where
  method : (server.sessions s).request.method = .post
  form : (server.sessions s).request.form = []
  boundary : ∃ b ∈ (server.sessions s).boundary, (server.sessions s).stringAt b = boundary
  size : (server.sessions s).payloadSize.toNat = payload.length
  upload : ∃ p ∈ (server.sessions s).uploadPtr,
    Memory.bytes server.memory p (payload.length + 1) = payload ++ [0]

theorem callHandler_log (handlers : List (List UInt8 × Handler τ ρ))
    (status : HttpdUriHandlerStatus) (s : ℕ) (server : Server τ ρ) :
    (callHandler handlers status s server).2.log = server.log := by
  obtain hsame | ⟨index, h, -, -, hrun⟩ := callHandler_cases handlers status s server
  · rw [hsame]
  · rw [hrun]
    rfl

theorem respond_log (conn s : ℕ) (server : Server τ ρ) :
    (respond conn s server).2.log = server.log := by
  unfold respond
  rw [bind_run, getSession_run]
  dsimp only
  cases (server.sessions s).response.status <;> rfl

theorem parseUpload_encoded {boundary payload : List UInt8} (h : server.Received s boundary payload)
    (hboundary : Announceable boundary) {parts : List FormPart}
    (hcount : parts.length ≤ maxFormValueItems)
    (hparts : ∀ part ∈ parts, part.Encodable (ascii "--" ++ boundary)) (epilogue : List UInt8)
    (hpayload : payload = encodeForm (ascii "--" ++ boundary) epilogue parts) :
    (parseUpload s server).2.log = server.log ∧
      List.Forall₂ (FormValue.DenotesIn (parseUpload s server).2.memory)
        ((parseUpload s server).2.sessions s).request.form parts := by
  obtain ⟨b, hb, rfl⟩ := h.boundary
  obtain ⟨p, hp, hupload⟩ := h.upload
  have hlt : payload.length < 2 ^ 32 := h.size ▸ (server.sessions s).payloadSize.isLt
  obtain ⟨values, mem, hparse, -, hdenote⟩ :=
    parseForm_encodeForm hboundary hcount hparts epilogue hpayload hlt
  rw [← hupload, ← h.size] at hparse
  rw [parseUpload_run hb hp hparse]
  obtain ⟨sessions, ram, hrest⟩ := server.write_rest p mem
  obtain ⟨buf, hsession⟩ := server.write_sessions s p mem
  refine ⟨by rw [hrest]; rfl, ?_⟩
  rw [Server.memory_setSession (server.write p mem) s (by rfl), setSession_self, hsession]
  dsimp only
  rw [h.form, List.nil_append, List.forall₂_map_left_iff]
  exact hdenote.imp fun value part hvalue => hvalue.at (server.write_bytes p mem)

theorem Server.Received.of_eq {server' : Server τ ρ} {boundary payload : List UInt8}
    (h : server.Received s boundary payload) {urih : Option UriHandler}
    (hsession : server'.sessions s = { server.sessions s with
      request := { (server.sessions s).request with urih := urih } })
    (hmemory : server'.memory = server.memory) : server'.Received s boundary payload := by
  refine ⟨?_, ?_, ?_, ?_, ?_⟩
  · rw [hsession]
    exact h.method
  · rw [hsession]
    exact h.form
  · rw [hsession]
    exact h.boundary
  · rw [hsession]
    exact h.size
  · rw [hsession, hmemory]
    exact h.upload

/-- The handler of a POST request is given the form that has been encoded. -/
theorem handleRequest_decodes (env : Env τ ρ) (handlers : List (List UInt8 × Handler τ ρ))
    (conn : ℕ) {boundary payload : List UInt8} (h : server.Received s boundary payload)
    (hhandler : (httpdFindUriHandler handlers
      ((server.sessions s).stringAt (server.sessions s).uri)).isSome)
    (hmalloc : env.malloc server.shared.allocs = true)
    (hboundary : Announceable boundary) {parts : List FormPart}
    (hcount : parts.length ≤ maxFormValueItems)
    (hparts : ∀ part ∈ parts, part.Encodable (ascii "--" ++ boundary)) (epilogue : List UInt8)
    (hpayload : payload = encodeForm (ascii "--" ++ boundary) epilogue parts) :
    ∃ request memory,
      (httpdHandleRequest env handlers conn s server).2.log =
        server.log ++ [.requested s request memory] ∧
      List.Forall₂ (FormValue.DenotesIn memory) request.form parts := by
  obtain ⟨index, hindex⟩ := Option.isSome_iff_exists.mp hhandler
  have hparsing : ((server.asked s index).allocated).Received s boundary payload :=
    h.of_eq (setSession_self ..) (server.memory_setSession s rfl)
  obtain ⟨hlog, hform⟩ := parseUpload_encoded hparsing hboundary hcount hparts epilogue hpayload
  refine ⟨_, _, ?_, hform⟩
  rw [httpdHandleRequest_post env handlers conn hindex h.method hmalloc, respond_log,
    callHandler_log]
  show (parseUpload s (server.asked s index).allocated).2.log ++ _ = _
  rw [hlog]
  rfl

end Request

/-! ## A form with a file and an empty field -/

section Sample

def sampleParts : List FormPart :=
  [⟨ascii "firmware", some (ascii "a.bin"), [0, 13, 10, 45]⟩, ⟨ascii "b", none, []⟩]

def samplePayload : List UInt8 :=
  encodeForm (ascii "--xx") (ascii "\r\n") sampleParts

def sampleReceived : Server Unit Unit where
  sessions := fun _ =>
    { Session.zero with
      status := .fullRcvd
      buf := fun i => (ascii "xx").getD i 0
      uri := 2
      boundary := some 0
      uploadPtr := some ⟨.ram, 0⟩
      payloadSize := BitVec.ofNat 32 samplePayload.length
      uploadSize := BitVec.ofNat 32 samplePayload.length
      request := ⟨.post, none, []⟩ }
  live := [0]
  fresh := 1
  ram := fun i => samplePayload.getD i 0
  isUploading := false
  shared := ⟨0, 0, 0, none, [], ()⟩
  log := []

theorem sampleReceived_received : sampleReceived.Received 0 (ascii "xx") samplePayload where
  method := rfl
  form := rfl
  boundary := ⟨0, rfl, by decide +kernel⟩
  size := by decide +kernel
  upload := ⟨⟨.ram, 0⟩, rfl, by decide +kernel⟩

theorem handleRequest_decodes_sample :
    ∃ request memory,
      (httpdHandleRequest plainEnv plainHandlers 0 0 sampleReceived).2.log =
        [.requested 0 request memory] ∧
      List.Forall₂ (FormValue.DenotesIn memory) request.form sampleParts := by
  refine handleRequest_decodes plainEnv plainHandlers 0 sampleReceived_received
    (by decide +kernel) rfl ?_ (by decide) ?_ (ascii "\r\n") rfl
  · constructor <;> decide
  · intro part hpart
    simp only [sampleParts, List.mem_cons, List.not_mem_nil, or_false] at hpart
    rcases hpart with rfl | rfl
    · refine ⟨?_, by decide, ?_, by decide⟩
      · constructor <;> decide
      · intro filename hname
        obtain rfl : ascii "a.bin" = filename := Option.some.inj hname
        constructor <;> decide
    · refine ⟨?_, by decide, (fun filename hname => nomatch hname), by decide⟩
      constructor <;> decide

end Sample

end Nwa50ax.Http
