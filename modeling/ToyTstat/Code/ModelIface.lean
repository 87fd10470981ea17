import ToyTstat.Code.MuQueue
import ToyTstat.Code.TstatModel

/-!
# `model_iface.c`: the text that is pushed

In `TstatApp` what is sent has no effect, here it is the result. The `model_` functions are the
`tstat_model_` ones. The size of the buffer, `MAX_LEN`, is not defined in the sources: it is a parameter.
-/

open CLib

namespace ToyTstat.Code

/-- `tstat_model_dump_json` with what it returns: the buffer `memory` lies at `buf`. -/
def model_dump_json (model : tstat_model_t) (buf : Ptr) (memory : List Byte) (buflen : Nat)
    (jems_levels : List jems_level_t) : Option (List Byte × Ptr) :=
  (tstat_model_dump_json model memory buflen jems_levels).map fun memory => (memory, buf)

/-- What `model_iface_push` sends, or `none` for `false`. -/
def model_iface_push_text (MAX_LEN : Nat) (model : tstat_model_t) (buf : Ptr) (memory : List Byte)
    (jems_levels : List jems_level_t) : Option (Option (List Byte)) :=
  (model_dump_json model buf memory MAX_LEN jems_levels).bind fun dump =>
    if dump.2 = NULL then some none else (strlen dump.1).map fun len => some (dump.1.take len)

end ToyTstat.Code
