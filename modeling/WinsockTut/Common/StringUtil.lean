import WinsockTut.Foundation.Buffer
import WinsockTut.Foundation.Word

/-!
# Formatting into a string

`StringAppendV` formats into a small buffer, and means to ask for the length and to try again with a
larger one if the text does not fit.  That is the convention of `vsnprintf`; `vsprintf_s` takes a
buffer that is too small, or none at all, for an invalid parameter.  So the call that asks for the
length fails whenever it is made, and `stringAppendV_eq` has no third case.

A format with its arguments is represented by the text they stand for.  A function that does not
return is `none`.
-/

namespace WinsockTut

namespace StringUtil

open Buffer Word

/-- `kSpaceLength`. -/
def kSpaceLength : ℤ := 1024

/-- What `StringAppendV` finds: the invalid-parameter handler, and the memory it is given, which
nobody has written to. -/
structure Runtime where
  /-- The invalid-parameter handler returns; the one that is installed by default ends the
  process. -/
  handlerReturns : Bool
  /-- The array `space`. -/
  space : List UInt8
  /-- What `new char[n]` points to. -/
  heap : ℕ → List UInt8
  length_space : space.length = 1024
  length_heap : ∀ n, (heap n).length = n

/-- `vsprintf_s(buffer, size, format, ap)`, if `text` is what is to be printed: its value, and the
contents of the buffer.  If the buffer cannot hold the text and the zero behind it, it is made
empty and the handler is called. -/
def Runtime.vsprintfS (rt : Runtime) (buffer : Option (List UInt8)) (size : ℤ)
    (text : List UInt8) : Option (ℤ × List UInt8) :=
  match buffer with
  | none => if rt.handlerReturns then some (-1, []) else none
  | some buf =>
    if text.length + 1 ≤ size then
      some (text.length, overwrite buf 0 (text ++ [0]))
    else
      if rt.handlerReturns then some (-1, overwrite buf 0 [0]) else none

/-- `StringAppendV` from the comment "Increase the buffer size" on. -/
def Runtime.appendLong (rt : Runtime) (dst text : List UInt8) (result : ℤ) :
    Option (List UInt8) := do
  let length := wrap32 (result + 1)
  if length < 0 then
    none -- `new` throws
  else
    let (result, buf) ← rt.vsprintfS (some (rt.heap length.toNat)) length text
    if result ≥ 0 ∧ result < length then
      return dst ++ buf.take result.toNat
    else
      return dst

/-- `StringAppendV`: the string `*dst` afterwards. -/
def stringAppendV (rt : Runtime) (dst text : List UInt8) : Option (List UInt8) := do
  let (result, space) ← rt.vsprintfS (some rt.space) kSpaceLength text
  if result < kSpaceLength then
    if result ≥ 0 then
      return dst ++ space.take result.toNat
    else
      let (result, _) ← rt.vsprintfS none 0 text
      if result < 0 then
        return dst
      else
        rt.appendLong dst text result
  else
    rt.appendLong dst text result

/-- `StringPrintf`. -/
def stringPrintf (rt : Runtime) (text : List UInt8) : Option (List UInt8) :=
  stringAppendV rt [] text

/-- `SStringPrintf`: the string `*dst` afterwards, which is also returned. -/
def sStringPrintf (rt : Runtime) (_dst text : List UInt8) : Option (List UInt8) :=
  stringAppendV rt [] text

variable {rt : Runtime} {buf dst text : List UInt8} {size : ℤ}

/-- A text that fits is printed. -/
theorem Runtime.vsprintfS_of_fits (h : (text.length : ℤ) + 1 ≤ size) :
    rt.vsprintfS (some buf) size text =
      some ((text.length : ℤ), overwrite buf 0 (text ++ [0])) := by
  simp only [vsprintfS, if_pos h]

/-- A text that does not fit is not measured either. -/
theorem Runtime.vsprintfS_of_not_fits (h : ¬ (text.length : ℤ) + 1 ≤ size) :
    rt.vsprintfS (some buf) size text =
      if rt.handlerReturns then some (-1, overwrite buf 0 [0]) else none := by
  simp only [vsprintfS, if_neg h]

/-- The text in a buffer it was printed into. -/
theorem take_printed (h : text.length < buf.length) :
    (overwrite buf 0 (text ++ [0])).take text.length = text := by
  have hroom : 0 + (text ++ [0]).length ≤ buf.length := by
    rw [List.length_append, List.length_singleton]
    omega
  have hfront := congrArg (List.take text.length) (take_overwrite hroom)
  rw [List.take_take] at hfront
  simpa using hfront

/-- **What `StringAppendV` does**: it appends a text of less than 1024 characters, and drops any
other, if it returns at all. -/
theorem stringAppendV_eq (rt : Runtime) (dst text : List UInt8) :
    stringAppendV rt dst text =
      if text.length < 1024 then some (dst ++ text)
      else if rt.handlerReturns then some dst else none := by
  by_cases hlt : text.length < 1024
  · have hfits : (text.length : ℤ) + 1 ≤ kSpaceLength := by
      unfold kSpaceLength
      omega
    have hless : (text.length : ℤ) < kSpaceLength := by omega
    have hroom : text.length < rt.space.length := by
      rw [rt.length_space]
      exact hlt
    have htake := take_printed hroom
    rw [stringAppendV, Runtime.vsprintfS_of_fits hfits, if_pos hlt]
    simp [hless, htake]
  · have hfits : ¬ (text.length : ℤ) + 1 ≤ kSpaceLength := by
      unfold kSpaceLength
      omega
    rw [stringAppendV, Runtime.vsprintfS_of_not_fits hfits, if_neg hlt]
    cases hreturns : rt.handlerReturns with
    | true => simp [kSpaceLength, Runtime.vsprintfS, hreturns]
    | false => rfl

/-- Nothing is lost exactly if the text fits into the small buffer. -/
theorem stringAppendV_eq_append_iff (rt : Runtime) (dst text : List UInt8) :
    stringAppendV rt dst text = some (dst ++ text) ↔ text.length < 1024 := by
  rw [stringAppendV_eq]
  split
  · next hlt => exact iff_of_true rfl hlt
  · next hge =>
    refine iff_of_false (fun heq => ?_) hge
    cases hreturns : rt.handlerReturns with
    | true =>
      rw [hreturns, if_pos rfl] at heq
      have hnil : text = [] := List.self_eq_append_right.mp (Option.some.inj heq)
      rw [hnil] at hge
      exact hge (by decide)
    | false =>
      rw [hreturns, if_neg Bool.false_ne_true] at heq
      cases heq

/-- **`StringAppendV`, and the functions that call it, lose no output exactly if** the text has less
than 1024 characters, for every invalid-parameter handler. -/
theorem stringUtil_exact_iff (rt : Runtime) (dst text : List UInt8) :
    (stringAppendV rt dst text = some (dst ++ text) ↔ text.length < 1024) ∧
      (stringPrintf rt text = some text ↔ text.length < 1024) ∧
      (sStringPrintf rt dst text = some text ↔ text.length < 1024) :=
  ⟨stringAppendV_eq_append_iff rt dst text, stringAppendV_eq_append_iff rt [] text,
    stringAppendV_eq_append_iff rt [] text⟩

/-- Memory that happens to be zero. -/
def Runtime.zeroed (handlerReturns : Bool) : Runtime where
  handlerReturns := handlerReturns
  space := List.replicate 1024 0
  heap n := List.replicate n 0
  length_space := List.length_replicate
  length_heap _ := List.length_replicate

/-- A text of 1024 characters is lost, if the handler returns; else the process ends. -/
theorem stringPrintf_long :
    stringPrintf (.zeroed true) (List.replicate 1024 65) = some [] ∧
      stringPrintf (.zeroed false) (List.replicate 1024 65) = none ∧
      ∀ b, stringPrintf (.zeroed b) (List.replicate 1024 65) ≠ some (List.replicate 1024 65) := by
  have hlen : ¬ (List.replicate 1024 (65 : UInt8)).length < 1024 := by
    rw [List.length_replicate]
    omega
  refine ⟨?_, ?_, fun b heq => hlen ((stringAppendV_eq_append_iff _ [] _).mp heq)⟩
  · rw [stringPrintf, stringAppendV_eq, if_neg hlen]
    rfl
  · rw [stringPrintf, stringAppendV_eq, if_neg hlen]
    rfl

end StringUtil

end WinsockTut
