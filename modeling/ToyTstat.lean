import ToyTstat.App.Lossless
import ToyTstat.App.Thermostat
import ToyTstat.Jems.Nesting
import ToyTstat.Jems.Stream
import ToyTstat.Jsmn.Counting
import ToyTstat.Jsmn.Generalise
import ToyTstat.Jsmn.Nested
import ToyTstat.Jsmn.Resume
import ToyTstat.Model.Patch
import ToyTstat.Model.Safe
import ToyTstat.Model.Unknown
import ToyTstat.Model.Values
import ToyTstat.MuStr.Cstr
import ToyTstat.MuStr.Cut
import ToyTstat.MuStr.Numbers
import ToyTstat.MuStr.Trim
import ToyTstat.Mulib.Access
import ToyTstat.Mulib.Accesses
import ToyTstat.Mulib.LinkedQueue
import ToyTstat.Mulib.Order
import ToyTstat.Mulib.Peek
import ToyTstat.Mulib.Periodic
import ToyTstat.Mulib.Refused
import ToyTstat.Mulib.Remove
import ToyTstat.Mulib.Reset
import ToyTstat.Mulib.Time
