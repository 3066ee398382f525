import DeskLink.Lib.KeyMap
import DeskLink.Lib.Trim

/-!
# `DeskLink.Capture.Wifi`: a Wi-Fi network from a QR code

`wifi` of `src/device_links/webrtc/capture.rs`:
`WIFI:S:<ssid>;T:<WPA|WEP|nopass>;P:<password>;H:<true>;;`. One loop over the characters
carries a key, a value, whether the value has begun and whether a backslash came.
-/

set_option autoImplicit false

namespace DeskLink.Capture

/-- A Wi-Fi network from a QR code. -/
structure Wifi where
  ssid : String
  /-- "WPA", "WEP", or empty for an open network. -/
  security : String
  password : String
  hidden : Bool
deriving DecidableEq, Repr

/-- What the loop carries. -/
structure WifiReader where
  fields : KeyMap String := ∅
  key : List Char := []
  value : List Char := []
  inValue : Bool := false
  escaped : Bool := false

namespace WifiReader

/-- A character of the key or the value. -/
def push (r : WifiReader) (c : Char) : WifiReader :=
  if r.inValue then { r with value := r.value ++ [c] } else { r with key := r.key ++ [c] }

def step (r : WifiReader) (c : Char) : WifiReader :=
  if r.escaped then { r.push c with escaped := false }
  else if c = '\\' then { r with escaped := true }
  else if !r.inValue && c = ':' then { r with inValue := true }
  else if c = ';' then
    if !r.key.isEmpty then
      { r with
        fields := r.fields.insert (String.ofList r.key) (String.ofList r.value)
        key := []
        value := []
        inValue := false }
    else { r with inValue := false }
  else r.push c

end WifiReader

/-- The code without `WIFI:` before it. -/
def wifiBody (text : String) : Option (List Char) :=
  let text := Lib.trim text.toList
  if "WIFI:".toList.isPrefixOf text then some (text.drop "WIFI:".length) else none

def wifiFields (body : List Char) : KeyMap String := (body.foldl WifiReader.step {}).fields

/-- What the code says, honestly. -/
def wifiSecurity (kind : String) : String :=
  if kind = "WEP" then "WEP"
  else if kind ∈ ["NOPASS", ""] then ""
  else if kind ∈ ["WPA", "WPA2", "WPA/WPA2", "WPA2-PSK", "WPA-PSK"] then "WPA"
  else if kind ∈ ["SAE", "WPA3", "WPA3-SAE"] then "SAE"
  else if kind ∈ ["EAP", "WPA-EAP", "WPA2-EAP", "WPA3-EAP", "EAP-TLS", "PEAP"] then "EAP"
  else "OTHER"

def wifiOfFields (fields : KeyMap String) : Option Wifi :=
  match fields["S"]?.filter (fun ssid => !ssid.isEmpty) with
  | none => none
  | some ssid =>
    some { ssid
           security :=
             match fields["T"]? with
             | some kind => wifiSecurity (String.ofList (kind.toList.map Char.toUpper))
             | none => ""
           password := fields["P"]?.getD ""
           hidden := fields["H"]? = some "true" }

/-- A QR code's Wi-Fi payload, `none` when it is not one. -/
def wifi (text : String) : Option Wifi := (wifiBody text).bind (fun body => wifiOfFields (wifiFields body))

end DeskLink.Capture
