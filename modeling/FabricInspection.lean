import FabricInspection.Concurrency.Contract
import FabricInspection.Receiver.ByteLoss
import FabricInspection.Motor.Contract
import FabricInspection.Motor.Safety
import FabricInspection.Motor.Stop
import FabricInspection.Motor.PwmTimer
import FabricInspection.Motor.Feedback
import FabricInspection.Inspection.Isolation
import FabricInspection.Inspection.Snapshot
import FabricInspection.Inspection.CsvText
import FabricInspection.Camera.Transmission
import FabricInspection.Motor.Regulation
import FabricInspection.Motor.Restart
import FabricInspection.Motor.Signals
import FabricInspection.Serial.Overflow
import FabricInspection.Camera.Detection
import FabricInspection.MiniProgram.Statistics
import FabricInspection.Line.Reporting
import FabricInspection.Receiver.Resync
import FabricInspection.Json.Accepted
import FabricInspection.Json.Unicode
import FabricInspection.Inspection.Uploads
