import Admission.Proofs.Json.RoundTrip
import Admission.Http.Route

/-!
# Bodies that are read as they were meant

A JSON object that is written and sent as JSON reaches the route as the value that was written: its
first two characters tell that the text is UTF-8, and the text is read back.
-/
namespace Admission.Http

open Json (Value Fields write)

/-! ## The bytes of a text -/

theorem toList_loop (bs : ByteArray) (i : Nat) (r : List UInt8) :
    ByteArray.toList.loop bs i r = r.reverse ++ bs.data.toList.drop i := by
  fun_induction ByteArray.toList.loop bs i r with
  | case1 i r h ih =>
    have hi : i < bs.data.toList.length := by simpa using h
    have hget : bs.get! i = bs.data.toList[i] := by
      simp [ByteArray.get!, getElem!_pos, h]
    rw [ih, List.drop_eq_getElem_cons hi, hget]
    simp
  | case2 i r h =>
    have hi : bs.data.toList.length ≤ i := by simpa using h
    simp [List.drop_eq_nil_of_le hi]

theorem toList_toUTF8 (s : String) : s.toUTF8.toList = s.toList.flatMap String.utf8EncodeChar := by
  have hbytes : s.toUTF8 = (s.toList.flatMap String.utf8EncodeChar).toByteArray := by
    conv_lhs => rw [String.toUTF8_eq_toByteArray, ← String.ofList_toList (s := s)]
    exact String.toByteArray_ofList
  rw [ByteArray.toList, toList_loop, hbytes, List.data_toByteArray]
  rfl

/-- A text that starts with two characters of one byte each, other than zero, is sent as it is. -/
theorem decodeBody?_of_cons_cons {c d : Char} {rest : List Char} (hc : c.toNat ∈ Set.Ioo 0 0x80)
    (hd : d.toNat ∈ Set.Ioo 0 0x80) :
    decodeBody? (String.ofList (c :: d :: rest)) = some (String.ofList (c :: d :: rest)) := by
  have byte {c : Char} (h : c.toNat ∈ Set.Ioo 0 0x80) :
      ∃ b : UInt8, String.utf8EncodeChar c = [b] ∧ b ≠ 0 := by
    obtain ⟨hpos, hlt⟩ : 0 < c.val.toNat ∧ c.val.toNat < 0x80 := h
    refine ⟨UInt8.ofNat c.val.toNat, if_pos (Nat.le_of_lt_succ hlt), ?_⟩
    intro hzero
    have hnat := congrArg UInt8.toNat hzero
    rw [UInt8.toNat_ofNat', Nat.mod_eq_of_lt (by omega)] at hnat
    exact absurd hnat (Nat.ne_of_gt hpos)
  obtain ⟨a, ha, ha0⟩ := byte hc
  obtain ⟨b, hb, hb0⟩ := byte hd
  have hbytes : (String.ofList (c :: d :: rest)).toUTF8.toList =
      a :: b :: rest.flatMap String.utf8EncodeChar := by
    simp only [toList_toUTF8, String.toList_ofList, List.flatMap_cons, ha, hb, List.cons_append,
      List.nil_append]
  have hencoding : Encoding.ofBytes (a :: b :: rest.flatMap String.utf8EncodeChar) = .bytes := by
    unfold Encoding.ofBytes
    split <;> simp_all
  have hmark : c ≠ '\ufeff' := by
    rintro rfl
    exact absurd hc.2 (by decide)
  rw [decodeBody?, hbytes, hencoding, String.toList_ofList]
  simp [hmark]

/-! ## Requests with a JSON object -/

/-- A request that posts an object. -/
def post (path : String) (fields : Fields) : Request where
  method := "POST"
  path := path
  contentType := some "application/json"
  body := (Value.object fields).render .line

theorem bodyValue_post (path : String) {fields : Fields} (h : (Value.object fields).Plain) :
    bodyValue (post path fields) = .ok (some (.object fields)) := by
  obtain ⟨d, rest, hwrite, hd⟩ : ∃ d rest, write .line 0 (.object fields) = '\x7b' :: d :: rest ∧
      d.toNat ∈ Set.Ioo 0 0x80 := by
    cases fields with
    | nil => exact ⟨_, _, rfl, by decide⟩
    | cons f fields => exact ⟨_, _, rfl, by decide⟩
  have hbody : (Value.object fields).render .line = String.ofList ('\x7b' :: d :: rest) := by
    rw [Value.render, hwrite]
  have hread := h.read_render .line
  have hne : (Value.object fields).render .line ≠ "" := by
    rw [hbody, ne_eq, ← String.toList_inj, String.toList_ofList]
    exact List.cons_ne_nil _ _
  have hdecode : decodeBody? ((Value.object fields).render .line) =
      some ((Value.object fields).render .line) := by
    rw [hbody]
    exact decodeBody?_of_cons_cons (by decide) hd
  have hjson : saysJson "application/json" = true := rfl
  simp [bodyValue, post, hne, hjson, hdecode, hread]

end Admission.Http
