/-
The database as its callers in auto_data_save.c see it: `dbscan` and `dbdel` on
an ordered map, with keys built by `snprintf` into 64-byte buffers.  Every
operation succeeds, except that a request whose declared key length is not the
length of the text that follows it is no request the server can answer.
-/
import WaterWall.ByteText
import WaterWall.OrderedStore

namespace WaterWall

open ByteText OrderedStore

universe v

variable {V : Type v}

abbrev Database (V : Type v) := Store Bytes V

/-- DB_KVN_MAX of db.h, the row limit every caller passes to `dbscan`. -/
def dbKvnMax : Nat := 1024

/-- Size of the `keybuf`, `scanstart` and `scanend` arrays. -/
def keyBufLen : Nat := 64

/-- `%d` of an unsigned argument: its upper half prints as negative. -/
def printD (n : UInt32) : Bytes :=
  if n.toNat < 2 ^ 31 then decimal n.toNat
  else ascii "-" ++ decimal (2 ^ 32 - n.toNat)

theorem lt_of_printD_append {n : UInt32} {number : Nat} {restLeft restRight : Bytes}
    (heq : printD n ++ restLeft = decimal number ++ restRight) : n.toNat < 2 ^ 31 := by
  by_contra hge
  rw [printD, if_neg hge] at heq
  have hhead := congrArg List.head? heq
  obtain ⟨first, digits, hdec⟩ := List.exists_cons_of_ne_nil (decimal_ne_nil number)
  have hdigit : IsDigit first :=
    decimal_isDigit number first (by rw [hdec]; exact List.mem_cons_self)
  rw [hdec] at hhead
  have hdash : (45 : Byte) = first := by simpa [ascii] using hhead
  rw [← hdash] at hdigit
  exact absurd hdigit (by decide)

theorem printD_append_inj {n : UInt32} {number : Nat} {stopLeft stopRight : Byte}
    (hstopLeft : ¬ IsDigit stopLeft) (hstopRight : ¬ IsDigit stopRight)
    {restLeft restRight : Bytes}
    (heq : printD n ++ stopLeft :: restLeft =
      decimal number ++ stopRight :: restRight) :
    n.toNat = number ∧ stopLeft = stopRight ∧ restLeft = restRight := by
  rw [printD, if_pos (lt_of_printD_append heq)] at heq
  exact decimal_append_inj hstopLeft hstopRight heq

/-- What `snprintf` leaves in a buffer of the given size, and the length it
returns: that of the whole text, cut or not. -/
def snprintf (size : Nat) (text : Bytes) : Bytes × Nat :=
  (text.take (size - 1), text.length)

theorem snprintf_fits {size : Nat} {text : Bytes} (hfits : text.length < size) :
    snprintf size text = (text, text.length) := by
  rw [snprintf, List.take_of_length_le (by omega)]

theorem snprintf_length_eq_iff {size : Nat} (hsize : 0 < size) {text : Bytes} :
    (snprintf size text).2 = (snprintf size text).1.length ↔ text.length < size := by
  simp only [snprintf, List.length_take]
  omega

def dbscan (db : Database V) (start : Bytes) (startLen : Nat) (stop : Bytes)
    (stopLen max : Nat) : Option (List (Bytes × V)) :=
  if startLen = start.length ∧ stopLen = stop.length then
    some (db.scan start stop max)
  else none

def dbdel (db : Database V) (key : Bytes) (keyLen : Nat) : Database V :=
  if keyLen = key.length then db.del key else db

end WaterWall
