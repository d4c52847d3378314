import Webpki.Error
import Webpki.Outcome
import Webpki.Time.Calendar
import Webpki.Time.Civil
import Webpki.Time.Der
import Webpki.Time.Range
