import ArduMash.Behaviour.LostProbe
import ArduMash.Behaviour.Prompt
import ArduMash.Behaviour.AccessRange
import ArduMash.Behaviour.Rollover
import ArduMash.Behaviour.Bookkeeping
import ArduMash.Behaviour.Marker
import ArduMash.Behaviour.Unattended
import ArduMash.Behaviour.Debounce
import ArduMash.Behaviour.Interference
import ArduMash.Behaviour.ShownTime
import ArduMash.Behaviour.Redraw
import ArduMash.OneWire.Crc16
import ArduMash.Dallas.Noise
import ArduMash.Dallas.Polling
import ArduMash.Dallas.Alarms
import ArduMash.Database.PowerCut
import ArduMash.Behaviour.Brew
